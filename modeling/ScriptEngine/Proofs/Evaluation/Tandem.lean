import ScriptEngine.Proofs.Evaluation.Admission
import ScriptEngine.Proofs.Evaluation.Lookalike
import ScriptEngine.Syntax.Entries

/-!
# Runs in tandem

Two runs of the evaluator side by side, with the same values and on machines that are related. Other
than a congruence, a tandem says something about what the runs return: that its values are sound, or
how many there are. What it says may depend on what has happened before, so it comes with worlds. A
world tells what is known of the machines, and it only gets larger as the runs go on.

Scopes may have other numbers in the second run, so operations that pass on a scope take what comes
after them as an argument.
-/

namespace ScriptEngine

open Eval

structure Tandem where
  World : Type
  le : World → World → Prop
  /-- The machines that the runs may stand at. -/
  related : World → Machine → Machine → Prop
  /-- The values that the runs may hold. -/
  sound : World → Value → Prop
  /-- The scopes that see the same. -/
  scope : World → ScopeId → ScopeId → Prop
  /-- The scopes that bind the same. -/
  own : World → ScopeId → ScopeId → Prop
  /-- The objects that may be given any properties. -/
  plain : World → ObjectId → Prop
  /-- The numbers of entries that arrays and argument lists may have. -/
  admits : Nat → Prop

namespace Tandem

/-- Pairs of new objects: they are the same up to the scope of a closure. -/
inductive Fresh (S : Tandem) (w : S.World) : Object → Object → Prop where
  | plain {p : ObjectId} (hp : S.sound w (.object p)) :
      Fresh S w (.bare .plain (some p)) (.bare .plain (some p))
  | array {items : Array Value} (hsize : S.admits items.size) (hitems : ∀ v ∈ items, S.sound w v) :
      Fresh S w (.bare (.array items) (some Proto.array.id))
        (.bare (.array items) (some Proto.array.id))
  | error {o : Object} (name message : String)
      (ho : o = ((Object.bare .error (some Proto.error.id)).define "name" (.string name)).define
        "message" (.string message)) : Fresh S w o o
  | closure {f : Function} {s s' : ScopeId} {p : ObjectId} (hf : ∀ n ∈ f.entries, S.admits n)
      (hs : S.scope w s s') (hp : S.sound w (.object p)) :
      Fresh S w
        ((Object.bare (.closure f s) (some Proto.function.id)).define "prototype" (.object p))
        ((Object.bare (.closure f s') (some Proto.function.id)).define "prototype" (.object p))

inductive Edit (S : Tandem) (w : S.World) (h : Heap) (id : ObjectId) :
    (Object → Object) → Prop where
  | define {key : String} {v : Value} (hid : S.plain w id) (hv : S.sound w v) :
      Edit S w h id (·.define key v)
  | write {slot : Object.Slot} {key : String} {v : Value}
      (hslot : (h.object id).slot? key v = some slot) (hv : S.sound w v) :
      Edit S w h id (·.write slot key v)
  | append {items : Array Value} {vs : List Value} (hitems : (h.object id).elements? = some items)
      (hlength : items.size + vs.length ≤ maxArrayLength) (hvs : ∀ v ∈ vs, S.sound w v) :
      Edit S w h id (·.append vs)
  | dropLast : Edit S w h id (·.dropLast)

theorem Edit.similar {S : Tandem} {w : S.World} {h : Heap} {id : ObjectId}
    {change : Object → Object} (hchange : S.Edit w h id change) (o : Object) :
    o.kind.Similar (change o).kind := by
  cases hchange with
  | define => exact o.similar_define _ _
  | write => exact o.similar_write _ _ _
  | append => exact o.similar_append _
  | dropLast => exact o.similar_dropLast

theorem Edit.alike {S : Tandem} {w : S.World} {h : Heap} {id : ObjectId} {change : Object → Object}
    (hchange : S.Edit w h id change) (f : Function) (s s' : ScopeId) (p : Option ObjectId)
    (ps : Properties) :
    (change ⟨.closure f s, p, ps⟩).Lookalike (change ⟨.closure f s', p, ps⟩) := by
  cases hchange with
  | define => exact .closure _ _ _ _ _
  | @write slot => cases slot <;> exact .closure _ _ _ _ _
  | append | dropLast => exact .closure _ _ _ _ _

/-- The laws of a tandem: larger worlds know more, related machines look alike and answer with sound
values, and each operation of the machine leads to related machines again. -/
structure Lawful (S : Tandem) : Prop where
  refl (w : S.World) : S.le w w
  trans {w₁ w₂ w₃ : S.World} (h₁ : S.le w₁ w₂) (h₂ : S.le w₂ w₃) : S.le w₁ w₃
  sound_mono {w w₁ : S.World} {v : Value} (h : S.le w w₁) (hv : S.sound w v) : S.sound w₁ v
  scope_mono {w w₁ : S.World} {i i' : ScopeId} (h : S.le w w₁) (hi : S.scope w i i') :
      S.scope w₁ i i'
  own_mono {w w₁ : S.World} {i i' : ScopeId} (h : S.le w w₁) (hi : S.own w i i') : S.own w₁ i i'
  plain_mono {w w₁ : S.World} {id : ObjectId} (h : S.le w w₁) (hid : S.plain w id) : S.plain w₁ id
  scope_of_own {w : S.World} {i i' : ScopeId} (hi : S.own w i i') : S.scope w i i'
  primitive {w : S.World} {v : Value} (hv : v.isObject = false) : S.sound w v
  admits_of_le {n k : Nat} (hn : n ≤ k) (hk : S.admits k) : S.admits n
  admits_max : S.admits maxArrayLength
  alike {w : S.World} {m m' : Machine} (hm : S.related w m m') : m.Lookalike m'
  current {w : S.World} {m m' : Machine} (hm : S.related w m m') : S.scope w m.current m'.current
  proto {w : S.World} {m m' : Machine} (hm : S.related w m m') (p : Proto) :
      S.sound w (.object p.id)
  get {w : S.World} {m m' : Machine} (hm : S.related w m m') (id : ObjectId) (key : String) :
    S.sound w (m.heap.get id key)
  elements {w : S.World} {m m' : Machine} (hm : S.related w m m') {id : ObjectId}
    {items : Array Value} (hitems : (m.heap.object id).elements? = some items) :
    S.admits items.size ∧ ∀ v ∈ items, S.sound w v
  closure {w : S.World} {m m' : Machine} (hm : S.related w m m') {id : ObjectId} {f : Function}
    {s : ScopeId} (hkind : (m.heap.object id).kind = .closure f s) : (∀ n ∈ f.entries, S.admits n) ∧
      ∃ s', (m'.heap.object id).kind = .closure f s' ∧ S.scope w s s'
  host {w : S.World} {m m' : Machine} (hm : S.related w m m') {id : ObjectId} {name : String}
    {f : HostFunction} (hkind : (m.heap.object id).kind = .native name (.host f))
    (n : Nat) : S.admits n
  bound {w : S.World} {m m' : Machine} (hm : S.related w m m') {i : ScopeId} {name : String}
    {b : Binding} (hb : m.scopes.getLocal? i name = some b) : S.sound w b.value
  getLocal? {w : S.World} {m m' : Machine} (hm : S.related w m m') {i i' : ScopeId}
    (hi : S.own w i i') (name : String) : m'.scopes.getLocal? i' name = m.scopes.getLocal? i name
  holder? {w : S.World} {m m' : Machine} (hm : S.related w m m') {i i' : ScopeId}
    (hi : S.scope w i i') (name : String) :
    Option.Rel (S.own w) (m.scopes.holder? i name) (m'.scopes.holder? i' name)
  receiver {w : S.World} {m m' : Machine} (hm : S.related w m m') {i i' : ScopeId}
    (hi : S.scope w i i') :
    m'.scopes.receiver i' = m.scopes.receiver i ∧ S.sound w (m.scopes.receiver i)
  varScope {w : S.World} {m m' : Machine} (hm : S.related w m m') {i i' : ScopeId}
    (hi : S.scope w i i') : S.own w (m.scopes.varScope i) (m'.scopes.varScope i')
  rootOf {w : S.World} {m m' : Machine} (hm : S.related w m m') {i i' : ScopeId}
    (hi : S.scope w i i') : S.scope w (m.scopes.rootOf i) (m'.scopes.rootOf i')
  enter {w : S.World} {m m' : Machine} (hm : S.related w m m') {i i' : ScopeId}
    (hi : S.scope w i i') : S.related w { m with current := i } { m' with current := i' }
  frames {w : S.World} {m m' : Machine} (hm : S.related w m m') (change : List Frame → List Frame) :
    S.related w { m with frames := change m.frames } { m' with frames := change m'.frames }
  joining {w : S.World} {m m' : Machine} (hm : S.related w m m')
    (change : List ObjectId → List ObjectId) :
    S.related w { m with joining := change m.joining } { m' with joining := change m'.joining }
  put {w : S.World} {m m' : Machine} (hm : S.related w m m') {i i' : ScopeId} (hi : S.own w i i')
    (name : String) {b : Binding} (hb : S.sound w b.value) :
    S.related w { m with scopes := m.scopes.put i name b }
      { m' with scopes := m'.scopes.put i' name b }
  add {w : S.World} {m m' : Machine} (hm : S.related w m m') {i i' : ScopeId} (hi : S.scope w i i')
    (holdsVars : Bool) {receiver : Option Value} (hreceiver : ∀ v ∈ receiver, S.sound w v) :
    ∃ w₁, S.le w w₁ ∧ S.own w₁ m.scopes.size m'.scopes.size ∧
      S.related w₁ { m with scopes := m.scopes.add ⟨∅, some i, holdsVars, receiver⟩ }
        { m' with scopes := m'.scopes.add ⟨∅, some i', holdsVars, receiver⟩ }
  fresh {w : S.World} {m m' : Machine} (hm : S.related w m m')
      {o o' : Object} (ho : S.Fresh w o o') :
    ∃ w₁, S.le w w₁ ∧ S.sound w₁ (.object m.heap.size) ∧
      (o.kind = .plain → S.plain w₁ m.heap.size) ∧
      S.related w₁ { m with heap := m.heap.alloc o } { m' with heap := m'.heap.alloc o' }
  edit {w : S.World} {m m' : Machine} (hm : S.related w m m') {id : ObjectId}
    {change : Object → Object} (hchange : S.Edit w m.heap id change) :
    S.related w { m with heap := m.heap.modify id change }
      { m' with heap := m'.heap.modify id change }

variable (S : Tandem)

structure After (w : S.World) (m m' : Machine) (w₁ : S.World) (n n' : Machine) : Prop where
  le : S.le w w₁
  related : S.related w₁ n n'
  current : n.current = m.current
  current' : n'.current = m'.current

def fails (w : S.World) (e : Failure) : Prop :=
  ∀ t, e = .thrown t → S.sound w t.value

inductive Ends {α : Type} (w : S.World) (m m' : Machine) (A : S.World → α → Prop) :
    EStateM.Result Failure Machine α → EStateM.Result Failure Machine α → Prop where
  | ok {w₁ : S.World} {n n' : Machine} {a : α} (h : S.After w m m' w₁ n n') (ha : A w₁ a) :
      Ends w m m' A (.ok a n) (.ok a n')
  | error {w₁ : S.World} {n n' : Machine} {e : Failure} (h : S.After w m m' w₁ n n')
      (he : S.fails w₁ e) : Ends w m m' A (.error e n) (.error e n')

/-- From related machines, two runs end alike and with a result that satisfies `A`. -/
def Runs {α : Type} (w : S.World) (A : S.World → α → Prop) (x y : Eval α) : Prop :=
  ∀ m m', S.related w m m' → S.Ends w m m' A (x m) (y m')

/-- The same of runs that start in scopes that bind the same. -/
def RunsHome {α : Type} (w : S.World) (A : S.World → α → Prop) (x y : Eval α) : Prop :=
  ∀ m m', S.related w m m' → S.own w m.current m'.current → S.Ends w m m' A (x m) (y m')

def values (n : Nat) (w : S.World) (vs : List Value) : Prop :=
  vs.length = n ∧ ∀ v ∈ vs, S.sound w v

def any {α : Type} (_ : S.World) (_ : α) : Prop :=
  True

variable {S} {w : S.World} {α β : Type} {A : S.World → α → Prop} {B : S.World → β → Prop}

theorem After.trans (L : S.Lawful) {w₁ w₂ : S.World} {m m' n n' l l' : Machine}
    (h₁ : S.After w m m' w₁ n n') (h₂ : S.After w₁ n n' w₂ l l') : S.After w m m' w₂ l l' where
  le := L.trans h₁.le h₂.le
  related := h₂.related
  current := h₂.current.trans h₁.current
  current' := h₂.current'.trans h₁.current'

theorem Ends.trans (L : S.Lawful) {w₁ : S.World} {m m' n n' : Machine}
    {r r' : EStateM.Result Failure Machine α} (h : S.After w m m' w₁ n n')
    (hr : S.Ends w₁ n n' A r r') : S.Ends w m m' A r r' := by
  cases hr with
  | ok h' ha => exact .ok (h.trans L h') ha
  | error h' he => exact .error (h.trans L h') he

theorem Ends.bind (L : S.Lawful) {m m' : Machine} {x y : Eval α} {k k' : α → Eval β}
    (h : S.Ends w m m' A (x m) (y m'))
    (hk : ∀ w₁ n n' a, S.After w m m' w₁ n n' → A w₁ a → S.Ends w₁ n n' B (k a n) (k' a n')) :
    S.Ends w m m' B ((x >>= k) m) ((y >>= k') m') := by
  simp only [Bind.bind, EStateM.bind]
  generalize x m = r, y m' = r' at h
  cases h with
  | ok h ha => exact .trans L h (hk _ _ _ _ h ha)
  | error h he => exact .error h he

theorem Ends.always {m m' m₀ m₀' : Machine} {x y : Eval α} {c c' : Machine → Machine}
    (h : S.Ends w m₀ m₀' A (x m₀) (y m₀'))
    (hc : ∀ w₁ n n', S.After w m₀ m₀' w₁ n n' → S.After w m m' w₁ (c n) (c' n')) :
    S.Ends w m m' A (Eval.always x c m₀) (Eval.always y c' m₀') := by
  unfold Eval.always
  generalize x m₀ = r, y m₀' = r' at h
  cases h with
  | ok h ha => exact .ok (hc _ _ _ h) ha
  | error h he => exact .error (hc _ _ _ h) he

theorem Runs.home {x y : Eval α} (h : S.Runs w A x y) : S.RunsHome w A x y :=
  fun m m' hm _ => h m m' hm

theorem Runs.ofReading {γ : Type} {f : Machine → β} {g : Machine → γ} {k : β → Eval α}
    {k' : γ → Eval α} (hk : ∀ m m', S.related w m m' → S.Runs w A (k (f m)) (k' (g m'))) :
    S.Runs w A (Eval.reading f >>= k) (Eval.reading g >>= k') :=
  fun m m' hm => hk m m' hm m m' hm

namespace Lawful

variable (L : S.Lawful)

include L

theorem after_refl {m m' : Machine} (hm : S.related w m m') : S.After w m m' w m m' :=
  ⟨L.refl w, hm, rfl, rfl⟩

theorem all_mono {w₁ : S.World} (h : S.le w w₁) {vs : List Value} (hvs : ∀ v ∈ vs, S.sound w v) :
    ∀ v ∈ vs, S.sound w₁ v :=
  fun v hv => L.sound_mono h (hvs v hv)

theorem few {n : Nat} (hn : n ≤ 3) : S.admits n :=
  L.admits_of_le (Nat.le_trans hn (by decide)) L.admits_max

theorem pure {a : α} (ha : A w a) : S.Runs w A (pure a) (pure a) :=
  fun _ _ hm => .ok (L.after_refl hm) ha

theorem throw {e : Failure} (he : S.fails w e) : S.Runs w A (throw e) (throw e) :=
  fun _ _ hm => .error (L.after_refl hm) he

theorem bind {x y : Eval α} {k k' : α → Eval β} (hx : S.Runs w A x y)
    (hk : ∀ w₁ a, S.le w w₁ → A w₁ a → S.Runs w₁ B (k a) (k' a)) :
    S.Runs w B (x >>= k) (y >>= k') :=
  fun m m' hm => .bind L (hx m m' hm) fun w₁ n n' a h ha => hk w₁ a h.le ha n n' h.related

theorem bindHome {x y : Eval α} {k k' : α → Eval β} (hx : S.RunsHome w A x y)
    (hk : ∀ w₁ a, S.le w w₁ → A w₁ a → S.RunsHome w₁ B (k a) (k' a)) :
    S.RunsHome w B (x >>= k) (y >>= k') := by
  intro m m' hm hown
  refine .bind L (hx m m' hm hown) fun w₁ n n' a h ha => hk w₁ a h.le ha n n' h.related ?_
  rw [h.current, h.current']
  exact L.own_mono h.le hown

theorem reading {f g : Machine → α}
    (h : ∀ m m', S.related w m m' → g m' = f m ∧ A w (f m)) :
    S.Runs w A (Eval.reading f) (Eval.reading g) := by
  intro m m' hm
  obtain ⟨hsame, ha⟩ := h m m' hm
  show S.Ends w m m' A (.ok (f m) m) (.ok (g m') m')
  rw [hsame]
  exact .ok (L.after_refl hm) ha

theorem reads {f g : Machine → α} (h : ∀ m m', S.related w m m' → g m' = f m) :
    S.Runs w S.any (Eval.reading f) (Eval.reading g) :=
  L.reading fun m m' hm => ⟨h m m' hm, trivial⟩

/-! The operations of the machine. -/

theorem alloc {o o' : Object} (ho : S.Fresh w o o') :
    S.Runs w (fun w₁ id => S.sound w₁ (.object id) ∧ (o.kind = .plain → S.plain w₁ id))
      (Eval.alloc o) (Eval.alloc o') := by
  intro m m' hm
  obtain ⟨w₁, hle, hsound, hplain, hm₁⟩ := L.fresh hm ho
  have hend := Ends.ok (A := fun w₁ id => S.sound w₁ (.object id) ∧
    (o.kind = .plain → S.plain w₁ id))
    (⟨hle, hm₁, rfl, rfl⟩ : S.After w m m' w₁ _ _) ⟨hsound, hplain⟩
  show S.Ends w m m' _ (.ok m.heap.size _) (.ok m'.heap.size _)
  rw [(L.alike hm).size]
  exact hend

theorem newPlain :
    S.Runs w (fun w₁ id => S.sound w₁ (.object id) ∧ S.plain w₁ id)
      Eval.newPlain Eval.newPlain := by
  intro m m' hm
  have hends := L.alloc (.plain (L.proto hm .object)) m m' hm
  unfold Eval.newPlain
  generalize Eval.alloc _ m = r, Eval.alloc _ m' = r' at hends
  cases hends with
  | ok h ha => exact .ok h ⟨ha.1, ha.2 rfl⟩
  | error h he => exact .error h he

theorem newArray {items : Array Value} (hsize : S.admits items.size)
    (hitems : ∀ v ∈ items, S.sound w v) :
    S.Runs w S.sound (Eval.newArray items) (Eval.newArray items) :=
  L.bind (L.alloc (.array hsize hitems)) fun _ _ _ hid => L.pure hid.1

theorem newError (name message : String) :
    S.Runs w S.sound (Eval.newError name message) (Eval.newError name message) :=
  L.bind (L.alloc (.error name message rfl)) fun _ _ _ hid => L.pure hid.1

theorem throwValue {v : Value} (hv : S.sound w v) :
    S.Runs w A (Eval.throwValue v) (Eval.throwValue v) := by
  refine Runs.ofReading fun m m' hm => ?_
  rw [(L.alike hm).frames]
  refine L.throw fun t ht => ?_
  cases ht
  exact hv

theorem throwNamed (c : ErrorClass) (message : String) :
    S.Runs w A (Eval.throwNamed c message) (Eval.throwNamed c message) :=
  L.bind (L.newError _ _) fun _ _ _ hv => L.throwValue hv

theorem throwScopeError (e : ScopeError) :
    S.Runs w A (Eval.throwScopeError e) (Eval.throwScopeError e) :=
  L.throwNamed _ _

theorem edits {id : ObjectId} {change : Object → Object} {m m' : Machine} (hm : S.related w m m')
    (hchange : S.Edit w m.heap id change) :
    S.Ends w m m' S.any
      ((modify fun m => { m with heap := m.heap.modify id change } : Eval Unit) m)
      ((modify fun m => { m with heap := m.heap.modify id change } : Eval Unit) m') :=
  .ok ⟨L.refl w, L.edit hm hchange, rfl, rfl⟩ trivial

theorem define {id : ObjectId} (hid : S.plain w id) (key : String) {v : Value} (hv : S.sound w v) :
    S.Runs w S.any (Eval.define id key v) (Eval.define id key v) :=
  fun _ _ hm => L.edits hm (.define hid hv)

theorem writeProperty (id : ObjectId) (key : String) {v : Value} (hv : S.sound w v) :
    S.Runs w S.any (Eval.writeProperty id key v) (Eval.writeProperty id key v) := by
  intro m m' hm
  simp only [Eval.writeProperty, Eval.reading, Bind.bind, EStateM.bind,
    ((L.alike hm).heap id).slot? key v]
  cases hslot : (m.heap.object id).slot? key v with
  | none => exact L.throwNamed _ _ m m' hm
  | some slot => exact L.edits hm (.write hslot hv)

theorem getProperty (base : Value) (key : String) :
    S.Runs w S.sound (Eval.getProperty base key) (Eval.getProperty base key) := by
  refine L.reading fun m m' hm => ⟨(L.alike hm).heap.propertyOf base key, ?_⟩
  cases base with
  | object id => exact L.get hm id key
  | string s =>
    simp only [propertyOf]
    split
    · exact L.primitive rfl
    · split
      · split <;> exact L.primitive rfl
      · exact L.get hm _ _
  | number | bool => exact L.get hm _ _
  | undefined | null => exact L.primitive rfl

/-! Scopes. -/

theorem currentScope {k k' : ScopeId → Eval α}
    (hk : ∀ i i', S.scope w i i' → S.Runs w A (k i) (k' i')) :
    S.Runs w A (Eval.currentScope >>= k) (Eval.currentScope >>= k') :=
  Runs.ofReading fun _ _ hm => hk _ _ (L.current hm)

theorem addScope {i i' : ScopeId} (hi : S.scope w i i') (holdsVars : Bool) {receiver : Option Value}
    (hreceiver : ∀ v ∈ receiver, S.sound w v) {k k' : ScopeId → Eval α}
    (hk : ∀ w₁ j j', S.le w w₁ → S.own w₁ j j' → S.Runs w₁ A (k j) (k' j')) :
    S.Runs w A (Eval.addScope ⟨∅, some i, holdsVars, receiver⟩ >>= k)
      (Eval.addScope ⟨∅, some i', holdsVars, receiver⟩ >>= k') := by
  intro m m' hm
  obtain ⟨w₁, hle, hown, hm₁⟩ := L.add hm hi holdsVars hreceiver
  exact .trans L ⟨hle, hm₁, rfl, rfl⟩ (hk w₁ _ _ hle hown _ _ hm₁)

theorem addBlock {i i' : ScopeId} (hi : S.scope w i i') {k k' : ScopeId → Eval α}
    (hk : ∀ w₁ j j', S.le w w₁ → S.own w₁ j j' → S.Runs w₁ A (k j) (k' j')) :
    S.Runs w A (Eval.addBlock i >>= k) (Eval.addBlock i' >>= k') :=
  L.addScope hi false (nofun : ∀ v ∈ (none : Option Value), S.sound w v) hk

theorem inScope {i i' : ScopeId} (hi : S.own w i i') {x y : Eval α} (hx : S.RunsHome w A x y) :
    S.Runs w A (Eval.inScope i x) (Eval.inScope i' y) := by
  intro m m' hm
  refine .always (hx _ _ (L.enter hm (L.scope_of_own hi)) hi) fun w₁ n n' h => ?_
  exact ⟨h.le, L.enter h.related (L.scope_mono h.le (L.current hm)), rfl, rfl⟩

theorem inBlock {x y : Eval α} (hx : ∀ w₁, S.le w w₁ → S.RunsHome w₁ A x y) :
    S.Runs w A (Eval.inBlock x) (Eval.inBlock y) :=
  L.currentScope fun _ _ hi => L.addBlock hi fun w₁ _ _ h₁ hj => L.inScope hj (hx w₁ h₁)

theorem lookup? {m m' : Machine} (hm : S.related w m m') (name : String) :
    m'.scopes.lookup? m'.current name = m.scopes.lookup? m.current name ∧
      ∀ v ∈ m.scopes.lookup? m.current name, S.sound w v := by
  have hholder := L.holder? hm (L.current hm) name
  simp only [ScopeTree.lookup?]
  cases hi : m.scopes.holder? m.current name with
  | none =>
    cases hi' : m'.scopes.holder? m'.current name with
    | none => exact ⟨rfl, nofun⟩
    | some i' =>
      rw [hi, hi'] at hholder
      cases hholder
  | some i =>
    cases hi' : m'.scopes.holder? m'.current name with
    | none =>
      rw [hi, hi'] at hholder
      cases hholder
    | some i' =>
      rw [hi, hi'] at hholder
      cases hholder with
      | some hown =>
        rw [Option.bind_some, Option.bind_some, L.getLocal? hm hown]
        refine ⟨rfl, fun v hv => ?_⟩
        obtain ⟨b, hb, rfl⟩ := Option.map_eq_some_iff.mp hv
        exact L.bound hm hb

theorem lookup (name : String) : S.Runs w S.sound (Eval.lookup name) (Eval.lookup name) := by
  refine Runs.ofReading fun m m' hm => ?_
  obtain ⟨hsame, hsound⟩ := L.lookup? hm name
  simp only [ScopeTree.get, hsame]
  cases hv : m.scopes.lookup? m.current name with
  | none => exact L.throwScopeError _
  | some v => exact L.pure (hsound v hv)

theorem lookupOr (name : String) :
    S.Runs w S.sound (Eval.reading fun m => (m.scopes.lookup? m.current name).getD .undefined)
      (Eval.reading fun m => (m.scopes.lookup? m.current name).getD .undefined) := by
  refine L.reading fun m m' hm => ?_
  obtain ⟨hsame, hsound⟩ := L.lookup? hm name
  rw [hsame]
  cases hv : m.scopes.lookup? m.current name with
  | none => exact ⟨rfl, L.primitive rfl⟩
  | some v => exact ⟨rfl, hsound v hv⟩

theorem puts {m m' : Machine} (hm : S.related w m m') {i i' : ScopeId} (hi : S.own w i i')
    (name : String) {v : Value} (hv : S.sound w v) (kind : BindingKind) :
    S.Ends w m m' S.any
      ((modify fun m => { m with scopes := m.scopes.put i name ⟨v, kind⟩ } : Eval Unit) m)
      ((modify fun m => { m with scopes := m.scopes.put i' name ⟨v, kind⟩ } : Eval Unit) m') :=
  .ok ⟨L.refl w, L.put hm hi name hv, rfl, rfl⟩ trivial

theorem assign (name : String) {v : Value} (hv : S.sound w v) :
    S.Runs w S.any (Eval.assign name v) (Eval.assign name v) := by
  intro m m' hm
  have hholder := L.holder? hm (L.current hm) name
  have hroot := L.varScope hm (L.rootOf hm (L.current hm))
  simp only [Eval.assign, Eval.reading, Bind.bind, EStateM.bind, ScopeTree.assignee]
  generalize m.scopes.holder? m.current name = found, m'.scopes.holder? m'.current name = found'
    at hholder
  cases hholder with
  | none => exact L.puts hm hroot name hv .var
  | @some i i' hown =>
    simp only [L.getLocal? hm hown]
    cases m.scopes.getLocal? i name with
    | none => exact L.puts hm hown name hv .var
    | some b =>
      dsimp only
      split
      · exact L.throwScopeError _ m m' hm
      · exact L.puts hm hown name hv b.kind

theorem declareLocal {i i' : ScopeId} (hi : S.own w i i') (name : String) {v : Value}
    (hv : S.sound w v) (kind : BindingKind) :
    S.Runs w S.any (Eval.declareLocal i name v kind) (Eval.declareLocal i' name v kind) := by
  intro m m' hm
  have hrefuses : m'.scopes.refuses i' name kind = m.scopes.refuses i name kind := by
    simp only [ScopeTree.refuses, L.getLocal? hm hi]
  simp only [Eval.declareLocal, Eval.reading, Bind.bind, EStateM.bind, hrefuses]
  split
  · exact L.throwScopeError _ m m' hm
  · exact L.puts hm hi name hv kind

theorem declareAsVar (name : String) {v : Value} (hv : S.sound w v) :
    S.Runs w S.any (Eval.declare name v .var) (Eval.declare name v .var) :=
  Runs.ofReading fun _ _ hm => L.declareLocal (L.varScope hm (L.current hm)) name hv .var

theorem declare (name : String) {v : Value} (hv : S.sound w v) (kind : BindingKind) :
    S.RunsHome w S.any (Eval.declare name v kind) (Eval.declare name v kind) := by
  cases kind with
  | var => exact (L.declareAsVar name hv).home
  | let_ | const => exact fun m m' hm hown => L.declareLocal hown name hv _ m m' hm

theorem declareVar (name : String) :
    S.Runs w S.any (Eval.declareVar name) (Eval.declareVar name) := by
  refine Runs.ofReading fun m m' hm => ?_
  have hhas : m'.scopes.varScopeHas m'.current name = m.scopes.varScopeHas m.current name := by
    have hlocal := L.getLocal? hm (L.varScope hm (L.current hm)) name
    simp only [ScopeTree.getLocal?] at hlocal
    simp only [ScopeTree.varScopeHas, Scope.has, Std.TreeMap.contains_eq_isSome_getElem?, hlocal]
  rw [hhas]
  split
  · exact L.pure trivial
  · exact L.declareAsVar name (L.primitive rfl)

theorem newFunction {f : Function} (hf : ∀ n ∈ f.entries, S.admits n) {i i' : ScopeId}
    (hi : S.scope w i i') : S.Runs w S.sound (Eval.newFunction f i) (Eval.newFunction f i') := by
  refine L.bind L.newPlain fun w₁ id h₁ hid => ?_
  refine L.bind (L.alloc (.closure hf (L.scope_mono h₁ hi) hid.1)) fun w₂ id h₂ hid => ?_
  exact L.pure hid.1

theorem newClosure {f : Function} (hf : ∀ n ∈ f.entries, S.admits n) :
    S.Runs w S.sound (Eval.currentScope >>= Eval.newFunction f)
      (Eval.currentScope >>= Eval.newFunction f) :=
  L.currentScope fun _ _ hi => L.newFunction hf hi

theorem functionValue {f : Function} (hf : ∀ n ∈ f.entries, S.admits n) :
    S.Runs w S.sound (Eval.functionValue f) (Eval.functionValue f) := by
  unfold Eval.functionValue
  split
  · exact L.newClosure hf
  · refine L.currentScope fun i i' hi => L.addBlock hi fun w₁ j j' h₁ hj => ?_
    refine L.bind (L.newFunction hf (L.scope_of_own hj)) fun w₂ v h₂ hv => ?_
    refine L.bind (L.declareLocal (L.own_mono h₂ hj) _ hv _) fun w₃ _ h₃ _ => ?_
    exact L.pure (L.sound_mono h₃ hv)

end Lawful

end Tandem

end ScriptEngine
