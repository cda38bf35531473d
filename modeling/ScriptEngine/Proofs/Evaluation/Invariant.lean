import ScriptEngine.Proofs.Evaluation.Permanence
import ScriptEngine.Proofs.Evaluation.TandemStatements

/-!
# Invariants of runs

A run in tandem with itself. What remains of a tandem is a condition on the machine, on the values
that a run holds and on the scopes that it comes by, in worlds that only get larger. It is checked
on single operations of the machine; from that it holds after every program and after every part of
one, and at the calls that these make.
-/

namespace ScriptEngine

open Eval

structure Invariant where
  World : Type
  le : World → World → Prop
  holds : World → Machine → Prop
  /-- The values that a run may hold. -/
  sound : World → Value → Prop
  /-- The scopes that a run may come by. -/
  scope : World → ScopeId → Prop
  /-- The objects that may be given any properties. -/
  plain : World → ObjectId → Prop
  /-- The numbers of entries that arrays and argument lists may have. -/
  admits : Nat → Prop

namespace Invariant

def tandem (I : Invariant) : Tandem where
  World := I.World
  le := I.le
  related w m m' := m' = m ∧ I.holds w m
  sound := I.sound
  scope w i i' := i' = i ∧ I.scope w i
  own w i i' := i' = i ∧ I.scope w i
  plain := I.plain
  admits := I.admits

structure Lawful (I : Invariant) : Prop where
  refl (w : I.World) : I.le w w
  trans {w₁ w₂ w₃ : I.World} (h₁ : I.le w₁ w₂) (h₂ : I.le w₂ w₃) : I.le w₁ w₃
  sound_mono {w w₁ : I.World} {v : Value} (h : I.le w w₁) (hv : I.sound w v) : I.sound w₁ v
  scope_mono {w w₁ : I.World} {i : ScopeId} (h : I.le w w₁) (hi : I.scope w i) : I.scope w₁ i
  plain_mono {w w₁ : I.World} {id : ObjectId} (h : I.le w w₁) (hid : I.plain w id) : I.plain w₁ id
  primitive {w : I.World} {v : Value} (hv : v.isObject = false) : I.sound w v
  admits_of_le {n k : Nat} (hn : n ≤ k) (hk : I.admits k) : I.admits n
  admits_max : I.admits maxArrayLength
  current {w : I.World} {m : Machine} (hm : I.holds w m) : I.scope w m.current
  proto {w : I.World} {m : Machine} (hm : I.holds w m) (p : Proto) : I.sound w (.object p.id)
  get {w : I.World} {m : Machine} (hm : I.holds w m) (id : ObjectId) (key : String) :
    I.sound w (m.heap.get id key)
  elements {w : I.World} {m : Machine} (hm : I.holds w m) {id : ObjectId} {items : Array Value}
    (hitems : (m.heap.object id).elements? = some items) :
    I.admits items.size ∧ ∀ v ∈ items, I.sound w v
  closure {w : I.World} {m : Machine} (hm : I.holds w m)
      {id : ObjectId} {f : Function} {s : ScopeId}
    (hkind : (m.heap.object id).kind = .closure f s) : (∀ n ∈ f.entries, I.admits n) ∧ I.scope w s
  host {w : I.World} {m : Machine} (hm : I.holds w m) {id : ObjectId} {name : String}
    {f : HostFunction} (hkind : (m.heap.object id).kind = .native name (.host f))
    (n : Nat) : I.admits n
  bound {w : I.World} {m : Machine} (hm : I.holds w m) {i : ScopeId} {name : String} {b : Binding}
    (hb : m.scopes.getLocal? i name = some b) : I.sound w b.value
  nearest? {w : I.World} {m : Machine} (hm : I.holds w m) {i j : ScopeId} (hi : I.scope w i)
    {p : Scope → Bool} (hj : m.scopes.nearest? i p = some j) : I.scope w j
  receiver {w : I.World} {m : Machine} (hm : I.holds w m) (i : ScopeId) :
    I.sound w (m.scopes.receiver i)
  enter {w : I.World} {m : Machine} (hm : I.holds w m) {i : ScopeId} (hi : I.scope w i) :
    I.holds w { m with current := i }
  calls {w : I.World} {m : Machine} (hm : I.holds w m) (frames : List Frame)
      (joining : List ObjectId) :
    I.holds w { m with frames := frames, joining := joining }
  put {w : I.World} {m : Machine} (hm : I.holds w m) {i : ScopeId} (hi : I.scope w i)
      (name : String)
    {b : Binding} (hb : I.sound w b.value) : I.holds w { m with scopes := m.scopes.put i name b }
  add {w : I.World} {m : Machine} (hm : I.holds w m) {i : ScopeId} (hi : I.scope w i)
    (holdsVars : Bool) {receiver : Option Value} (hreceiver : ∀ v ∈ receiver, I.sound w v) :
    ∃ w₁, I.le w w₁ ∧ I.scope w₁ m.scopes.size ∧
      I.holds w₁ { m with scopes := m.scopes.add ⟨∅, some i, holdsVars, receiver⟩ }
  fresh {w : I.World} {m : Machine} (hm : I.holds w m) {o : Object} (ho : I.tandem.Fresh w o o) :
    ∃ w₁, I.le w w₁ ∧ I.sound w₁ (.object m.heap.size) ∧
      (o.kind = .plain → I.plain w₁ m.heap.size) ∧ I.holds w₁ { m with heap := m.heap.alloc o }
  edit {w : I.World} {m : Machine} (hm : I.holds w m) {id : ObjectId} {change : Object → Object}
    (hchange : I.tandem.Edit w m.heap id change) :
    I.holds w { m with heap := m.heap.modify id change }

variable {I : Invariant} {w : I.World}

theorem eq_of_fresh {o o' : Object} (ho : I.tandem.Fresh w o o') : o' = o := by
  cases ho with
  | plain | array | error => rfl
  | closure _ hs => rw [hs.1]

theorem holds_of_ends {α : Type} {m m' : Machine} {A : I.World → α → Prop}
    {r r' : EStateM.Result Failure Machine α} (h : I.tandem.Ends w m m' A r r') :
    ∃ w₁, I.le w w₁ ∧ I.holds w₁ (final r) := by
  cases h with
  | ok h => exact ⟨_, h.le, h.related.2⟩
  | error h => exact ⟨_, h.le, h.related.2⟩

namespace Lawful

variable (L : I.Lawful)

include L

theorem lawful : I.tandem.Lawful where
  refl := L.refl
  trans := L.trans
  sound_mono := L.sound_mono
  scope_mono h hi := ⟨hi.1, L.scope_mono h hi.2⟩
  own_mono h hi := ⟨hi.1, L.scope_mono h hi.2⟩
  plain_mono := L.plain_mono
  scope_of_own hi := hi
  primitive := L.primitive
  admits_of_le := L.admits_of_le
  admits_max := L.admits_max
  alike := by
    rintro w _ m ⟨rfl, -⟩
    exact ⟨fun _ => .refl _, rfl, rfl, rfl, rfl⟩
  current := by
    rintro w _ m ⟨rfl, hm⟩
    exact ⟨rfl, L.current hm⟩
  proto hm := L.proto hm.2
  get hm := L.get hm.2
  elements hm _ _ := L.elements hm.2
  closure := by
    rintro w _ m ⟨rfl, hm⟩ id f s hkind
    obtain ⟨hentries, hs⟩ := L.closure hm hkind
    exact ⟨hentries, s, hkind, rfl, hs⟩
  host hm _ _ _ := L.host hm.2
  bound hm _ _ _ := L.bound hm.2
  getLocal? := by
    rintro w _ m ⟨rfl, -⟩ _ i ⟨rfl, -⟩ name
    rfl
  holder? := by
    rintro w _ m ⟨rfl, hm⟩ _ i ⟨rfl, hi⟩ name
    cases hj : m.scopes.holder? i name with
    | none => exact .none
    | some j => exact .some ⟨rfl, L.nearest? hm hi hj⟩
  receiver := by
    rintro w _ m ⟨rfl, hm⟩ _ i ⟨rfl, -⟩
    exact ⟨rfl, L.receiver hm i⟩
  varScope := by
    rintro w _ m ⟨rfl, hm⟩ _ i ⟨rfl, hi⟩
    refine ⟨rfl, ?_⟩
    unfold ScopeTree.varScope
    cases hj : m.scopes.nearest? i (·.holdsVars) with
    | none => exact hi
    | some j => exact L.nearest? hm hi hj
  rootOf := by
    rintro w _ m ⟨rfl, hm⟩ _ i ⟨rfl, hi⟩
    refine ⟨rfl, ?_⟩
    unfold ScopeTree.rootOf
    cases hj : m.scopes.nearest? i (·.parent.isNone) with
    | none => exact hi
    | some j => exact L.nearest? hm hi hj
  enter := by
    rintro w _ m ⟨rfl, hm⟩ _ i ⟨rfl, hi⟩
    exact ⟨rfl, L.enter hm hi⟩
  frames := by
    rintro w _ m ⟨rfl, hm⟩ change
    exact ⟨rfl, L.calls hm _ _⟩
  joining := by
    rintro w _ m ⟨rfl, hm⟩ change
    exact ⟨rfl, L.calls hm _ _⟩
  put := by
    rintro w _ m ⟨rfl, hm⟩ _ i ⟨rfl, hi⟩ name b hb
    exact ⟨rfl, L.put hm hi name hb⟩
  add := by
    rintro w _ m ⟨rfl, hm⟩ _ i ⟨rfl, hi⟩ holdsVars receiver hreceiver
    obtain ⟨w₁, hle, hnew, hm₁⟩ := L.add hm hi holdsVars hreceiver
    exact ⟨w₁, hle, ⟨rfl, hnew⟩, rfl, hm₁⟩
  fresh := by
    rintro w _ m ⟨rfl, hm⟩ o o' ho
    obtain rfl := eq_of_fresh ho
    obtain ⟨w₁, hle, hsound, hplain, hm₁⟩ := L.fresh hm ho
    exact ⟨w₁, hle, hsound, hplain, rfl, hm₁⟩
  edit := by
    rintro w _ m ⟨rfl, hm⟩ id change hchange
    exact ⟨rfl, L.edit hm hchange⟩

theorem stopping (stop : Machine → Bool) {x y : Eval Value}
    (hx : I.tandem.Runs w I.tandem.sound x y) :
    I.tandem.Runs w I.tandem.sound (stopping stop x) (stopping stop y) := by
  rintro m m' hm
  obtain rfl := hm.1
  have hends := hx _ _ hm
  -- the machines stay the same, so `stop` finds both or neither
  have hfinal : final (y m') = final (x m') := by
    generalize x m' = r, y m' = r' at hends
    cases hends with
    | ok h => exact h.related.1
    | error h => exact h.related.1
  by_cases hfinds : stop m' = true
  · simp only [Eval.stopping, diverted, if_pos hfinds]
    exact L.lawful.outOfFuel _ _ hm
  · by_cases hleaves : stop (final (x m')) = true
    · simp only [Eval.stopping, diverted, if_neg hfinds, hfinal, if_pos hleaves]
      generalize x m' = r, y m' = r' at hends
      cases hends with
      | ok h =>
        exact .error ⟨h.le, ⟨rfl, h.related.2⟩, h.current, h.current⟩ (Tandem.fails_outOfFuel _)
      | error h =>
        exact .error ⟨h.le, ⟨rfl, h.related.2⟩, h.current, h.current⟩ (Tandem.fails_outOfFuel _)
    · simp only [Eval.stopping, diverted, if_neg hfinds, hfinal, if_neg hleaves]
      exact hends

end Lawful

end Invariant

namespace Eval.Activity

/-- The lengths of the array literals and argument lists of what is done. -/
def entries {α : Type} : Activity α → List Nat
  | expression e => e.entries
  | statement s => s.entries
  | statements ss => Stmt.entriesOf ss
  | body ss => Stmt.entriesOf ss
  | block b => b.entries
  | value _ _ args => [args.length]
  | call _ _ args _ => [args.length]

def values {α : Type} : Activity α → List Value
  | value _ receiver args => receiver :: args
  | call _ receiver args _ => receiver :: args
  | _ => []

end Eval.Activity

namespace Invariant.Lawful

variable {I : Invariant} {w : I.World} (L : I.Lawful)
    {m : Machine} (stop : Machine → Bool) (fuel : Nat)

include L

theorem calls_stopping : I.tandem.Calls (monitored (Eval.stopping stop) fuel)
    (monitored (Eval.stopping stop) fuel) :=
  L.lawful.calls_monitored (fun _ _ _ hx => L.stopping stop hx) fuel

theorem activity (hm : I.holds w m) (rounds : Nat) {α : Type} {a : Activity α}
    (ha : ∀ n ∈ a.entries, I.admits n) (hvalues : ∀ v ∈ a.values, I.sound w v) :
    ∃ w₁, I.le w w₁ ∧
      I.holds w₁ (final (a.run (monitored (Eval.stopping stop) fuel) rounds m)) := by
  have T := L.lawful
  have hc := L.calls_stopping stop fuel
  have hstart : I.tandem.related w m m := ⟨rfl, hm⟩
  have hown : I.tandem.own w m.current m.current := ⟨rfl, L.current hm⟩
  cases a with
  | expression e => exact holds_of_ends (T.eval hc e ha w m m hstart)
  | statement s => exact holds_of_ends (T.run hc rounds s ha w m m hstart hown)
  | statements ss => exact holds_of_ends (T.runAll hc rounds none ss ha w trivial m m hstart hown)
  | body ss => exact holds_of_ends (T.runBody hc rounds ss ha w m m hstart hown)
  | block b =>
    exact holds_of_ends (T.inBlock (fun w₁ _ => T.runBlock hc rounds b ha w₁) m m hstart)
  | value callee receiver args =>
    obtain ⟨hreceiver, hargs⟩ := List.forall_mem_cons.mp hvalues
    have hlength := ha _ (List.mem_singleton_self _)
    exact holds_of_ends (T.callValue hc callee hreceiver hargs hlength m m hstart)
  | call id receiver args frame =>
    obtain ⟨hreceiver, hargs⟩ := List.forall_mem_cons.mp hvalues
    have hlength := ha _ (List.mem_singleton_self _)
    exact holds_of_ends (hc w id receiver args frame hreceiver hargs hlength m m hstart)

theorem program (hm : I.holds w m.atRest) {program : Block}
    (hprogram : ∀ n ∈ program.entries, I.admits n) :
    ∃ w₁, I.le w w₁ ∧ I.holds w₁ (final (runUntil stop fuel program m)) := by
  obtain ⟨o, statements⟩ := program
  have T := L.lawful
  have hbody := T.runBody (L.calls_stopping stop fuel) fuel statements hprogram w
  let run := runBody (monitored (Eval.stopping stop) fuel) fuel statements
  have hrun : I.tandem.RunsHome w I.tandem.sound (run >>= (·.expectNormal .program))
      (run >>= (·.expectNormal .program)) := by
    refine T.bindHome hbody fun w₁ c _ hcompletion => Tandem.Runs.home ?_
    match c with
    | .normal none => exact T.pure (T.primitive rfl)
    | .normal (some v) => exact T.pure (A := I.tandem.sound) hcompletion
    | .leave | .skip | .giveBack _ => exact T.throw nofun
  exact holds_of_ends (hrun m.atRest m.atRest ⟨rfl, hm⟩ ⟨rfl, L.current hm⟩)

end Invariant.Lawful

end ScriptEngine
