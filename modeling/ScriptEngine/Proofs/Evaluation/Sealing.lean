import ScriptEngine.Proofs.Evaluation.Enclosure
import ScriptEngine.Proofs.Evaluation.Permanence

/-!
# Sealed scopes

A binding of a scope is written only from inside the scope: by code that runs in the scope itself or
in a block below it, and by calls of closures that were made there. A seal keeps some names of a
scope as they are bound in it. It says which functions the closures from inside may have: none of
them writes one of the names that are bound. Then code from outside leaves the bindings alone,
whatever it calls.
-/

namespace ScriptEngine

open Eval

def Eval.Activity.writes {α : Type} : Activity α → List String
  | .expression e => e.writes
  | .statement s => s.writes
  | .statements ss => Stmt.writesOf ss
  | .body ss => Stmt.writesOf ss
  | .block b => b.writes
  | .value _ _ _ => []
  | .call _ _ _ _ => []

theorem Eval.final_always {α : Type} (x : Eval α) (after : Machine → Machine) (m : Machine) :
    final (always x after m) = after (final (x m)) := by
  unfold always
  cases x m <;> rfl

/-- A scope, names whose bindings in it are kept, and the functions that closures from inside it may
have. -/
structure Seal where
  scope : ScopeId
  names : List String
  admits : Function → Prop
  inner {f : Function} : admits f → ∀ g ∈ f.body.functions, admits g

namespace Seal

variable (S : Seal)

/-- An assignment to a name from inside the sealed scope goes past that scope. It would land in a
root that does not bind the name. -/
structure Misses (name : String) (t : ScopeTree) : Prop where
  unbound : t.getLocal? S.scope name = none
  parent : (t.scope S.scope).parent ≠ none

structure Sealed (m : Machine) : Prop where
  wellScoped : m.WellScoped
  lt_size : S.scope < m.scopes.size
  closures : ∀ id f home, (m.heap.object id).kind = .closure f home →
    m.scopes.Inside S.scope home → S.admits f
  spares : ∀ f, S.admits f → ∀ name ∈ f.body.writes, name ∈ S.names →
    S.Misses name m.scopes

structure Lasts (m m' : Machine) : Prop where
  sealed : S.Sealed m'
  grows : m.scopes.Grows m'.scopes
  bindings : ∀ name ∈ S.names,
    m'.scopes.getLocal? S.scope name = m.scopes.getLocal? S.scope name

structure Kept (m m' : Machine) : Prop extends S.Lasts m m' where
  current : m'.current = m.current

variable {S} {m m' m'' : Machine}

theorem Lasts.refl (hm : S.Sealed m) : S.Lasts m m :=
  ⟨hm, .refl _, fun _ _ => rfl⟩

theorem Lasts.trans (h : S.Lasts m m') (h' : S.Lasts m' m'') : S.Lasts m m'' where
  sealed := h'.sealed
  grows := h.grows.trans h'.grows
  bindings name hname := (h'.bindings name hname).trans (h.bindings name hname)

theorem Lasts.misses (h : S.Lasts m m') (hm : S.Sealed m) {name : String} (hname : name ∈ S.names)
    (hmisses : S.Misses name m.scopes) : S.Misses name m'.scopes where
  unbound := (h.bindings name hname).trans hmisses.unbound
  parent := by
    rw [h.grows.parent _ hm.lt_size]
    exact hmisses.parent

theorem Kept.refl (hm : S.Sealed m) : S.Kept m m :=
  ⟨.refl hm, rfl⟩

theorem Kept.trans (h : S.Kept m m') (h' : S.Kept m' m'') : S.Kept m m'' :=
  ⟨h.toLasts.trans h'.toLasts, h'.current.trans h.current⟩

theorem Sealed.congr (hm : S.Sealed m) (hheap : m'.heap = m.heap) (hscopes : m'.scopes = m.scopes)
    (hcurrent : m'.current < m.scopes.size) : S.Sealed m' := by
  obtain ⟨heap', scopes', current', frames', joining', limit'⟩ := m'
  subst hheap hscopes
  exact ⟨⟨hm.wellScoped.ordered, hcurrent, hm.wellScoped.homes⟩, hm.lt_size, hm.closures,
    hm.spares⟩

theorem Sealed.enter (hm : S.Sealed m) {id : ScopeId} (hid : id < m.scopes.size) :
    S.Sealed { m with current := id } :=
  hm.congr rfl rfl hid

theorem Kept.calls {frames frames' : List Frame} {joining joining' : List ObjectId}
    (h : S.Kept { m with frames := frames, joining := joining } m') :
    S.Kept m { m' with frames := frames', joining := joining' } :=
  ⟨⟨h.sealed.congr rfl rfl h.sealed.wellScoped.current, h.grows, h.bindings⟩, h.current⟩

section Changes

theorem Sealed.kept_heap (hm : S.Sealed m) {heap : Heap}
    (hwell : Machine.WellScoped { m with heap := heap })
    (hclosures : ∀ id f home, (heap.object id).kind = .closure f home →
      m.scopes.Inside S.scope home → S.admits f) : S.Kept m { m with heap := heap } :=
  ⟨⟨⟨hwell, hm.lt_size, hclosures, hm.spares⟩, .refl _, fun _ _ => rfl⟩, rfl⟩

theorem Sealed.kept_alloc (hm : S.Sealed m) {o : Object}
    (ho : ∀ f home, o.kind = .closure f home →
      home < m.scopes.size ∧ (m.scopes.Inside S.scope home → S.admits f)) :
    S.Kept m { m with heap := m.heap.alloc o } := by
  refine hm.kept_heap (hm.wellScoped.alloc fun f home hkind => (ho f home hkind).1) ?_
  intro id f home hkind
  rw [Heap.object_alloc] at hkind
  split at hkind
  · exact (ho f home hkind).2
  · exact hm.closures id f home hkind

theorem Sealed.kept_modify (hm : S.Sealed m) {f : Object → Object}
    (hf : ∀ o : Object, o.kind.Similar (f o).kind) (id : ObjectId) :
    S.Kept m { m with heap := m.heap.modify id f } :=
  hm.kept_heap (hm.wellScoped.modify hf id) fun i k home hkind =>
    hm.closures i k home ((m.heap.similar_modify hf id i).closure hkind)

theorem Sealed.kept_scopes (hm : S.Sealed m) {scopes : ScopeTree}
    (hwell : Machine.WellScoped { m with scopes := scopes }) (hgrows : m.scopes.Grows scopes)
    (hbindings : ∀ name ∈ S.names,
      scopes.getLocal? S.scope name = m.scopes.getLocal? S.scope name) :
    S.Kept m { m with scopes := scopes } where
  sealed := by
    refine ⟨hwell, Nat.lt_of_lt_of_le hm.lt_size hgrows.size_le, ?_, ?_⟩
    · intro id f home hkind hinside
      rw [hgrows.inside_iff (hm.wellScoped.homes id f home hkind)] at hinside
      exact hm.closures id f home hkind hinside
    · intro f hf name hwrites hname
      have hmisses := hm.spares f hf name hwrites hname
      refine ⟨(hbindings name hname).trans hmisses.unbound, ?_⟩
      show (scopes.scope S.scope).parent ≠ none
      rw [hgrows.parent _ hm.lt_size]
      exact hmisses.parent
  current := rfl
  grows := hgrows
  bindings := hbindings

theorem Sealed.kept_put (hm : S.Sealed m) {id : ScopeId} {name : String}
    (h : id = S.scope → name ∉ S.names) (b : Binding) :
    S.Kept m { m with scopes := m.scopes.put id name b } := by
  refine hm.kept_scopes (hm.wellScoped.put id name b) (ScopeTree.grows_put id name b) ?_
  intro n hn
  rw [ScopeTree.getLocal?_put, if_neg]
  rintro ⟨hid, rfl, -⟩
  exact h hid.symm hn

theorem Sealed.kept_addScope (hm : S.Sealed m) {new : Scope} {parent : ScopeId}
    (hparent : new.parent = some parent) (hlt : parent < m.scopes.size) :
    S.Kept m { m with scopes := m.scopes.add new } :=
  hm.kept_scopes (hm.wellScoped.addScope hparent hlt) (ScopeTree.grows_add new) fun name _ =>
    ScopeTree.getLocal?_add new hm.lt_size name

theorem Kept.inside_child {new : Scope} {parent : ScopeId}
    (hk : S.Kept { m with scopes := m.scopes.add new } m') (hm : S.Sealed m)
    (hparent : new.parent = some parent) (hlt : parent < m.scopes.size) :
    m'.scopes.Inside S.scope m.scopes.size ↔ m.scopes.Inside S.scope parent := by
  have hchild : m.scopes.size < (m.scopes.add new).size := by
    simp [ScopeTree.add]
  rw [hk.grows.inside_iff hchild, ScopeTree.inside_add_iff hm.lt_size hparent hlt]

theorem Kept.lt_size_child {new : Scope} (hk : S.Kept { m with scopes := m.scopes.add new } m') :
    m.scopes.size < m'.scopes.size := by
  refine Nat.lt_of_lt_of_le ?_ hk.grows.size_le
  simp [ScopeTree.add]

end Changes

def KeepsAt (S : Seal) (m : Machine) {α : Type} (x : Eval α) : Prop :=
  S.Kept m (final (x m))

section Runs

variable {α β : Type}

theorem keepsAt_throw (hm : S.Sealed m) (e : Failure) : S.KeepsAt m (throw e : Eval α) :=
  Kept.refl hm

theorem KeepsAt.bind {x : Eval α} {f : α → Eval β} (hx : S.KeepsAt m x)
    (hf : ∀ a m', x m = .ok a m' → S.Kept m m' → S.KeepsAt m' (f a)) : S.KeepsAt m (x >>= f) := by
  unfold KeepsAt at hx ⊢
  simp only [Bind.bind, EStateM.bind]
  cases hr : x m with
  | ok a m' =>
    rw [hr] at hx
    exact hx.trans (hf a m' hr hx)
  | error e m' =>
    rw [hr] at hx
    exact hx

theorem KeepsAt.of_reading {r : Machine → α} {f : α → Eval β} (h : S.KeepsAt m (f (r m))) :
    S.KeepsAt m (reading r >>= f) :=
  h

theorem KeepsAt.map {x : Eval α} (hx : S.KeepsAt m x) (f : α → β) :
    S.KeepsAt m (x >>= fun a => pure (f a)) :=
  hx.bind fun _ _ _ hk => Kept.refl hk.sealed

theorem KeepsAt.inScope {id : ScopeId} {x : Eval α}
    (hx : S.KeepsAt { m with current := id } x) (hm : S.Sealed m) : S.KeepsAt m (inScope id x) := by
  unfold KeepsAt at hx ⊢
  simp only [Eval.inScope, final_always]
  refine ⟨⟨hx.sealed.enter ?_, hx.grows, hx.bindings⟩, rfl⟩
  exact Nat.lt_of_lt_of_le hm.wellScoped.current hx.grows.size_le

theorem keepsAt_alloc (hm : S.Sealed m) {o : Object}
    (ho : ∀ f home, o.kind = .closure f home →
      home < m.scopes.size ∧ (m.scopes.Inside S.scope home → S.admits f)) :
    S.KeepsAt m (alloc o) :=
  hm.kept_alloc ho

theorem keepsAt_addScope (hm : S.Sealed m) {new : Scope} {parent : ScopeId}
    (hparent : new.parent = some parent) (hlt : parent < m.scopes.size) :
    S.KeepsAt m (addScope new) :=
  hm.kept_addScope hparent hlt

theorem keepsAt_newFunction (hm : S.Sealed m) {f : Function} {scope : ScopeId}
    (hscope : scope < m.scopes.size) (hf : m.scopes.Inside S.scope scope → S.admits f) :
    S.KeepsAt m (newFunction f scope) := by
  refine (keepsAt_alloc hm (by simp [Object.bare])).bind fun prototype m' hr hk => ?_
  cases hr
  refine (keepsAt_alloc hk.sealed fun f' home hkind => ?_).map _
  cases hkind
  exact ⟨hscope, hf⟩

theorem keepsAt_throwNamed (hm : S.Sealed m) (c : ErrorClass) (message : String) :
    S.KeepsAt m (throwNamed c message : Eval α) := by
  refine ((keepsAt_alloc hm ?_).map _).bind fun v m' _ hk => keepsAt_throw hk.sealed _
  simp [Object.bare, Object.define]

theorem keepsAt_declareLocal (hm : S.Sealed m) {id : ScopeId} {name : String}
    (h : id = S.scope → name ∉ S.names) (v : Value) (kind : BindingKind) :
    S.KeepsAt m (declareLocal id name v kind) := by
  refine .of_reading ?_
  split
  · exact keepsAt_throwNamed hm _ _
  · exact hm.kept_put h _

theorem keepsAt_declare (hm : S.Sealed m) {name : String}
    (hhere : m.current = S.scope → name ∉ S.names) {kind : BindingKind}
    (hvars : kind = .var → m.scopes.nearest? m.current (·.holdsVars) = some S.scope →
      name ∉ S.names) (v : Value) : S.KeepsAt m (declare name v kind) := by
  refine keepsAt_declareLocal hm (fun hid => ?_) v kind
  cases kind with
  | var =>
    change m.scopes.varScope m.current = S.scope at hid
    unfold ScopeTree.varScope at hid
    cases hfound : m.scopes.nearest? m.current (·.holdsVars) with
    | none =>
      rw [hfound] at hid
      exact hhere hid
    | some i =>
      rw [hfound] at hid
      exact hvars rfl (hfound.trans (congrArg some hid))
  | let_ | const => exact hhere hid

theorem keepsAt_assign (hm : S.Sealed m) {name : String}
    (h : m.scopes.Inside S.scope m.current → name ∈ S.names → S.Misses name m.scopes) (v : Value) :
    S.KeepsAt m (assign name v) := by
  refine .of_reading ?_
  cases hassignee : m.scopes.assignee m.current name with
  | error e => exact keepsAt_throwNamed hm _ _
  | ok found =>
    obtain ⟨holder, kind⟩ := found
    refine hm.kept_put (fun hholder hname => ?_) _
    unfold ScopeTree.assignee at hassignee
    split at hassignee
    next =>
      -- a new global, whose scope has no parent
      cases hassignee
      obtain ⟨hparent, hinside⟩ := ScopeTree.varScope_rootOf hm.wellScoped.ordered m.current
      rw [hholder] at hparent hinside
      exact (h hinside hname).parent hparent
    next i hi =>
      have hinside := ScopeTree.inside_of_climb hm.wellScoped.ordered hi
      have hhas := ScopeTree.of_climb_eq_some hi
      have hi' : i = S.scope := by
        split at hassignee
        next =>
          cases hassignee
          exact hholder
        next =>
          split at hassignee
          next => cases hassignee
          next =>
            cases hassignee
            exact hholder
      subst hi'
      rw [ScopeTree.has_eq, (h hinside hname).unbound] at hhas
      cases hhas

end Runs

def Keeps (S : Seal) (H : Machine → Prop) {α : Type} (x : Eval α) : Prop :=
  ∀ m, S.Sealed m → H m → S.KeepsAt m x

/-- What is admitted where code runs inside the sealed scope: functions that satisfy `P`, and writes
to names that satisfy `W`. A `var` that lands in the scope has a name that satisfies `V`. -/
structure Licensed (S : Seal) (P : Function → Prop) (W V : String → Prop) (m : Machine) : Prop where
  functions : m.scopes.Inside S.scope m.current → ∀ f, P f → S.admits f
  writes : m.scopes.Inside S.scope m.current → ∀ name ∈ S.names, W name → S.Misses name m.scopes
  vars : m.scopes.nearest? m.current (·.holdsVars) = some S.scope → ∀ name ∈ S.names, ¬V name

/-- Code that may declare names runs elsewhere than in the sealed scope itself, unless no names are
kept. -/
def Apart (S : Seal) (m : Machine) : Prop :=
  m.current = S.scope → S.names = []

theorem Keeps.mono {H H' : Machine → Prop} {α : Type} {x : Eval α} (hx : S.Keeps H x)
    (h : ∀ m, S.Sealed m → H' m → H m) : S.Keeps H' x :=
  fun m hm hH => hx m hm (h m hm hH)

section Congruence

variable {P : Function → Prop} {W V : String → Prop} {H : Machine → Prop}

theorem Licensed.kept (h : S.Licensed P W V m) (hm : S.Sealed m) (hk : S.Kept m m') :
    S.Licensed P W V m' := by
  have hcurrent := hm.wellScoped.current
  constructor <;> rw [hk.current]
  · rw [hk.grows.inside_iff hcurrent]
    exact h.functions
  · rw [hk.grows.inside_iff hcurrent]
    intro hinside name hname hwrites
    exact hk.misses hm hname (h.writes hinside name hname hwrites)
  · rw [hk.grows.nearest?_holdsVars hm.wellScoped.ordered hcurrent]
    exact h.vars

theorem Apart.kept (h : S.Apart m) (hk : S.Kept m m') : S.Apart m' :=
  fun hcurrent => h (hk.current.symm.trans hcurrent)

theorem Licensed.child (h : S.Licensed P W V m) (hm : S.Sealed m)
    (hk : S.Kept { m with scopes := m.scopes.add (.block m.current) } m') :
    S.Licensed P W V { m' with current := m.scopes.size } := by
  have hcurrent := hm.wellScoped.current
  have hnew : (m.scopes.add (.block m.current)).scope m.scopes.size = .block m.current := by
    simp [ScopeTree.scope_add]
  have hadded : Machine.WellScoped { m with scopes := m.scopes.add (.block m.current) } :=
    hm.wellScoped.addScope rfl hcurrent
  constructor
  · intro hinside
    exact h.functions ((hk.inside_child hm rfl hcurrent).mp hinside)
  · intro hinside name hname hwrites
    have hmisses := h.writes ((hk.inside_child hm rfl hcurrent).mp hinside) name hname hwrites
    exact ((hm.kept_addScope rfl hcurrent).trans hk).misses hm hname hmisses
  · show m'.scopes.nearest? m.scopes.size _ = _ → _
    rw [hk.grows.nearest?_holdsVars hadded.ordered (by simp [ScopeTree.add]),
      ScopeTree.nearest?_of_not hadded.ordered (congrArg Scope.parent hnew)
        (congrArg Scope.holdsVars hnew),
      (ScopeTree.grows_add _).nearest?_holdsVars hm.wellScoped.ordered hcurrent]
    exact h.vars

theorem Sealed.apart_child (hm : S.Sealed m) (m' : Machine) :
    S.Apart { m' with current := m.scopes.size } :=
  fun hcurrent => absurd hcurrent (Nat.ne_of_gt hm.lt_size)

def Stable (S : Seal) (H : Machine → Prop) : Prop :=
  ∀ m m', S.Sealed m → S.Kept m m' → H m → H m'

theorem stable_true : S.Stable fun _ => True :=
  fun _ _ _ _ _ => trivial

theorem stable_licensed : S.Stable (S.Licensed P W V) :=
  fun _ _ hm hk h => h.kept hm hk

theorem Keeps.bind {α β : Type} {x : Eval α} {f : α → Eval β} (hx : S.Keeps H x)
    (hH : S.Stable H) (hf : ∀ a, S.Keeps H (f a)) : S.Keeps H (x >>= f) :=
  fun m hm h => (hx m hm h).bind fun a m' _ hk => hf a m' hk.sealed (hH m m' hm hk h)

theorem basicCongruence (hH : S.Stable H) : BasicCongruence .stay (fun x _ => S.Keeps H x) where
  pure _ _ hm _ := Kept.refl hm
  bind hx hf := hx.bind hH hf
  ofReading hk m hm h := hk m m hm h
  throwValue _ m hm _ := keepsAt_throw hm _
  alloc o hf _ m hm _ := hm.kept_alloc fun f home hkind => absurd hkind (hf f home)
  writeProperty id key v m hm _ := by
    refine .of_reading ?_
    cases (m.heap.object id).slot? key v with
    | some slot => exact hm.kept_modify (fun o => o.similar_write slot key v) id
    | none => exact keepsAt_throwNamed hm _ _

theorem nativeCongruence (hH : S.Stable H)
    (hjoining : ∀ m joining, H m → H { m with joining := joining }) :
    NativeCongruence .stay (fun x _ => S.Keeps H x) where
  toBasicCongruence := basicCongruence hH
  append id vs m hm _ := hm.kept_modify (fun o => o.similar_append vs) id
  dropLast id m hm _ := hm.kept_modify (fun o => o.similar_dropLast) id
  whileJoining id x _ hx m hm h := by
    have hkept := hx { m with joining := id :: m.joining } (hm.congr rfl rfl hm.wellScoped.current)
      (hjoining _ _ h)
    show S.Kept m (final (always x _ _))
    rw [final_always]
    exact hkept.calls

theorem keepsAt_functionValue (hm : S.Sealed m) {f : Function}
    (hf : m.scopes.Inside S.scope m.current → S.admits f) : S.KeepsAt m (functionValue f) := by
  have hcurrent := hm.wellScoped.current
  obtain ⟨name, params, body⟩ := f
  cases name with
  | none => exact .of_reading (keepsAt_newFunction hm hcurrent hf)
  | some name =>
    refine .of_reading ((keepsAt_addScope hm rfl hcurrent).bind fun scope m₁ hr hk => ?_)
    cases hr
    have hopened := Kept.refl hk.sealed
    have hadmits := fun hinside => hf ((hopened.inside_child hm rfl hcurrent).mp hinside)
    refine (keepsAt_newFunction hk.sealed hopened.lt_size_child hadmits).bind fun v m₂ _ hk₂ => ?_
    refine (keepsAt_declareLocal hk₂.sealed (fun hid => ?_) _ _).map _
    exact absurd hid (Nat.ne_of_gt hm.lt_size)

theorem exprCongruence (hH : S.Stable H) (hlicensed : ∀ m, H m → S.Licensed P W V m) :
    ExprCongruence P W .stay (fun x _ => S.Keeps H x) where
  toBasicCongruence := basicCongruence hH
  define id key v _ hm _ := hm.kept_modify (fun o => o.similar_define key v) id
  functionValue hf m hm h :=
    keepsAt_functionValue hm fun hinside => (hlicensed m h).functions hinside _ hf
  assign hname v m hm h :=
    keepsAt_assign hm (fun hinside hkept => (hlicensed m h).writes hinside _ hkept hname) v

theorem keepsAt_inBlock (hm : S.Sealed m) {α : Type} {x : Eval α}
    (hx : ∀ m', S.Kept { m with scopes := m.scopes.add (.block m.current) } m' →
      S.KeepsAt { m' with current := m.scopes.size } x) : S.KeepsAt m (inBlock x) := by
  refine .of_reading ((keepsAt_addScope hm rfl hm.wellScoped.current).bind fun id m' hr hk => ?_)
  cases hr
  exact (hx _ (Kept.refl hk.sealed)).inScope hk.sealed

def Admitted (S : Seal) (P : Function → Prop) (W V : String → Prop) (m : Machine) : Prop :=
  S.Licensed P W V m ∧ S.Apart m

theorem stable_admitted : S.Stable (S.Admitted P W V) :=
  fun _ _ hm hk h => ⟨h.1.kept hm hk, h.2.kept hk⟩

theorem keeps_inBlock {α : Type} {x : Eval α} (hx : S.Keeps (S.Admitted P W V) x) :
    S.Keeps (S.Licensed P W V) (inBlock x) := by
  intro m hm h
  refine keepsAt_inBlock hm fun m' hk => ?_
  exact hx _ (hk.sealed.enter hk.lt_size_child) ⟨h.child hm hk, hm.apart_child m'⟩

theorem keeps_handling (param : Option Ident) (v : Value) {x : Eval Completion}
    (hx : S.Keeps (S.Admitted P W V) x) : S.Keeps (S.Licensed P W V) (handling param x v) := by
  intro m hm h
  refine .of_reading ((keepsAt_addScope hm rfl hm.wellScoped.current).bind fun id m₁ hr hk => ?_)
  cases hr
  -- the block of the handler is below a scope for the thrown value
  have hblock : ∀ m', S.Kept { m with scopes := m.scopes.add (.block m.current) } m' →
      S.KeepsAt m' (inScope m.scopes.size (inBlock x)) := by
    intro m' hk'
    have hinner := keeps_inBlock hx { m' with current := m.scopes.size }
      (hk'.sealed.enter hk'.lt_size_child) (h.child hm hk')
    exact hinner.inScope hk'.sealed
  have hopened := Kept.refl hk.sealed
  cases param with
  | none => exact hblock _ hopened
  | some p =>
    refine (keepsAt_declareLocal hk.sealed (fun hid => ?_) _ _).bind fun _ m₂ _ hk₂ =>
      hblock m₂ hk₂
    exact absurd hid (Nat.ne_of_gt hm.lt_size)

theorem keeps_catching (hH : S.Stable H) {x : Eval Completion} {f : Value → Eval Completion}
    (hx : S.Keeps H x) (hf : ∀ v, S.Keeps H (f v)) : S.Keeps H (catching x (some f)) := by
  intro m hm h
  have hkept := hx m hm h
  unfold KeepsAt at hkept ⊢
  simp only [catching, outcome, bind, EStateM.bind]
  cases hr : x m with
  | ok c m' =>
    rw [hr] at hkept
    exact hkept
  | error e m' =>
    rw [hr] at hkept
    cases e with
    | thrown t => exact hkept.trans (hf t.value m' hkept.sealed (hH m m' hm hkept h))
    | internal | outOfFuel => exact hkept

theorem keeps_closing (ended : Except Failure Completion) (c : Completion) :
    S.Keeps H (closing ended c) := by
  intro m hm _
  cases c with
  | normal => cases ended <;> exact Kept.refl hm
  | leave | skip | giveBack => exact Kept.refl hm

theorem keeps_finalizing (hH : S.Stable H) {x last : Eval Completion} (hx : S.Keeps H x)
    (hlast : S.Keeps H last) : S.Keeps H (finalizing x (some last)) := by
  intro m hm h
  have hkept := hx m hm h
  have hrest (ended : Except Failure Completion) : S.Keeps H (last >>= closing ended) :=
    hlast.bind hH (keeps_closing ended)
  unfold KeepsAt at hkept ⊢
  cases hr : x m with
  | ok c m' =>
    rw [hr] at hkept
    rw [finalizing_of_ok hr]
    exact hkept.trans (hrest _ m' hkept.sealed (hH m m' hm hkept h))
  | error e m' =>
    rw [hr] at hkept
    by_cases he : e = .outOfFuel
    · subst he
      rw [finalizing_of_outOfFuel hr]
      exact hkept
    · rw [finalizing_of_error he hr]
      exact hkept.trans (hrest _ m' hkept.sealed (hH m m' hm hkept h))

theorem stmtCongruence : StmtCongruence P W V .stay (fun x _ => S.Keeps (S.Admitted P W V) x) where
  toExprCongruence := exprCongruence stable_admitted fun _ h => h.1
  newClosure hf m hm h := by
    refine .of_reading (keepsAt_newFunction hm hm.wellScoped.current fun hinside => ?_)
    exact h.1.functions hinside _ hf
  declare {name} v kind hname m hm h := by
    refine keepsAt_declare hm (fun hcurrent => ?_) (fun hkind hvars hkept => ?_) v
    · rw [h.2 hcurrent]
      exact List.not_mem_nil
    · exact h.1.vars hvars name hkept (hname hkind)
  inBlock hx := (keeps_inBlock hx).mono fun _ _ h => h.1
  handling param v _ _ hx := (keeps_handling param v hx).mono fun _ _ h => h.1
  catching := keeps_catching stable_admitted
  finalizing := keeps_finalizing stable_admitted

theorem keepsAt_copyInto (hm : S.Sealed m) {source target : ScopeId}
    (htarget : target ≠ S.scope) (names : List String) :
    S.KeepsAt m (copyInto source target names) := by
  induction names generalizing m with
  | nil => exact Kept.refl hm
  | cons name names ih =>
    refine .of_reading ?_
    cases m.scopes.getLocal? source name with
    | none => exact ih hm
    | some b =>
      have hdeclare : S.KeepsAt m (declareLocal target name b.value b.kind) :=
        keepsAt_declareLocal hm (fun hid => absurd hid htarget) _ _
      exact hdeclare.bind fun _ m' _ hk => ih hk.sealed

theorem Sealed.kept_overwrite (hm : S.Sealed m) {id : ScopeId} (h : id = S.scope → S.names = [])
    (name : String) (v : Value) :
    S.Kept m { m with scopes := m.scopes.overwriteLocal id name v } := by
  rw [ScopeTree.overwriteLocal_eq]
  split
  · refine hm.kept_put (fun hid => ?_) _
    rw [h hid]
    exact List.not_mem_nil
  · exact Kept.refl hm

theorem Sealed.kept_copyBack (hm : S.Sealed m) (source : ScopeId) {target : ScopeId}
    (htarget : target = S.scope → S.names = []) (names : List String) :
    S.Kept m (copyBack source target names m) := by
  induction names generalizing m with
  | nil => exact Kept.refl hm
  | cons name names ih =>
    simp only [copyBack, List.foldl_cons]
    cases m.scopes.getLocal? source name with
    | none => exact ih hm
    | some b =>
      have hwrite := hm.kept_overwrite htarget name b.value
      exact hwrite.trans (ih hwrite.sealed)

theorem keeps_iteration (names : List String) {body : Eval Completion}
    (hbody : S.Keeps (S.Admitted P W V) body) :
    S.Keeps (S.Admitted P W V) (iteration names body) := by
  intro m hm h
  refine .of_reading ((keepsAt_addScope hm rfl hm.wellScoped.current).bind fun id m₁ hr hk => ?_)
  cases hr
  have hfresh : m.scopes.size ≠ S.scope := Nat.ne_of_gt hm.lt_size
  refine (keepsAt_copyInto hk.sealed hfresh names).bind fun _ m₂ _ hk₂ => ?_
  have hround := hbody { m₂ with current := m.scopes.size } (hk₂.sealed.enter hk₂.lt_size_child)
    ⟨h.1.child hm hk₂, hm.apart_child m₂⟩
  have hscope := hround.inScope hk₂.sealed
  unfold KeepsAt at hscope ⊢
  rw [final_always]
  exact hscope.trans (hscope.sealed.kept_copyBack _ h.2 names)

theorem keeps_loopBody (names : List String) {body : Eval Completion}
    (hbody : S.Keeps (S.Admitted P W V) body) :
    S.Keeps (S.Admitted P W V) (loopBody names body) := by
  unfold loopBody
  split
  · exact hbody
  · exact keeps_iteration names hbody

theorem sequential : Sequential (fun x _ => S.Keeps (S.Admitted P W V) x) where
  toCompositional := stmtCongruence.toCompositional
  outOfFuel _ hm _ := keepsAt_throw hm _

theorem keeps_declarators (hH : S.Stable H) {ways : Ways} {f : Invoke} {kind : BindingKind}
    {ds : List Declarator} (hds : ∀ d ∈ ds, S.Keeps H (d.runWith ways f kind)) :
    S.Keeps H (Declarator.runAllWith ways f kind ds) := by
  induction ds with
  | nil => exact fun _ hm _ => Kept.refl hm
  | cons d ds ih =>
    rw [List.forall_mem_cons] at hds
    exact hds.1.bind hH fun _ => ih hds.2

theorem looping : Looping .stay (fun x _ => S.Keeps (S.Admitted P W V) x) where
  toSequential := sequential
  rounds := by
    intro ways f g kind _ ds hds condition condition' update update' hcondition hupdate body body'
      hbody n
    have hround := keeps_loopBody (ds.map Declarator.name) hbody
    refine (keeps_inBlock ?_).mono fun _ _ h => h.1
    refine (keeps_declarators stable_admitted hds).bind stable_admitted fun _ => ?_
    exact @Sequential.forLoop _ sequential condition condition' update update' hcondition hupdate _
      body' hround n

end Congruence

theorem keepsAt_bindParams (hm : S.Sealed m) {scope : ScopeId} (hscope : scope ≠ S.scope)
    (params : List Ident) (args : List Value) : S.KeepsAt m (bindParams scope params args) := by
  induction params generalizing m args with
  | nil => exact Kept.refl hm
  | cons p ps ih =>
    have hdeclare : S.KeepsAt m (declareLocal scope p.name (args.headD .undefined) .var) :=
      keepsAt_declareLocal hm (fun hid => absurd hid hscope) _ _
    exact hdeclare.bind fun _ m' _ hk => ih hk.sealed args.tail

section Calls

variable {f : Invoke} (hf : ∀ id receiver args frame,
  S.Keeps (fun _ => True) (f id receiver args frame))

include hf

theorem sameCalls {H : Machine → Prop} (hH : S.Stable H) :
    SameCalls .stay (fun x _ => S.Keeps H x) f f :=
  (basicCongruence hH).sameCalls fun id receiver args frame =>
    (hf id receiver args frame).mono fun _ _ _ => trivial

theorem keepsAt_callClosure (hm : S.Sealed m) (rounds : Nat) {k : Function} {home : ScopeId}
    (hhome : home < m.scopes.size) (hk : m.scopes.Inside S.scope home → S.admits k)
    (receiver : Value) (args : List Value) :
    S.KeepsAt m (callClosure f rounds k home receiver args) := by
  obtain ⟨name, params, ⟨origin, statements⟩⟩ := k
  refine (keepsAt_addScope hm rfl hhome).bind fun scope m₁ hr hk₁ => ?_
  cases hr
  have hfresh : m.scopes.size ≠ S.scope := Nat.ne_of_gt hm.lt_size
  refine (keepsAt_bindParams hk₁.sealed hfresh params args).bind fun _ m₂ _ hk₂ => ?_
  have hlicensed : S.Licensed (· ∈ Stmt.functionsOf statements) (· ∈ Stmt.writesOf statements)
      (fun _ => True) { m₂ with current := m.scopes.size } := by
    have hadmits (hinside : m₂.scopes.Inside S.scope m.scopes.size) :=
      hk ((hk₂.inside_child hm rfl hhome).mp hinside)
    refine ⟨fun hinside => S.inner (hadmits hinside), fun hinside name hname hwrites => ?_, ?_⟩
    · exact hk₂.sealed.spares _ (hadmits hinside) name hwrites hname
    · -- the new scope holds the variables of the call
      intro hvars
      have hholds : (m₂.scopes.scope m.scopes.size).holdsVars = true := by
        rw [hk₂.grows.holdsVars _ (by simp [ScopeTree.add]), ScopeTree.scope_add, if_pos rfl]
        rfl
      rw [ScopeTree.nearest?_of_pos hholds] at hvars
      exact absurd (Option.some.inj hvars) hfresh
  have hbody := runBody_congr stmtCongruence (sameCalls hf stable_admitted) statements
    (fun _ hg => hg) (fun _ hname => hname) (fun _ _ _ _ => trivial)
    fun _ _ => ⟨(rfl : rounds = rounds), looping⟩
  have hrun := hbody _ (hk₂.sealed.enter hk₂.lt_size_child) ⟨hlicensed, hm.apart_child m₂⟩
  refine (hrun.inScope hk₂.sealed).bind fun c m₃ _ hk₃ => ?_
  cases c <;> exact Kept.refl hk₃.sealed

theorem keeps_activation (rounds : Nat) (id : ObjectId) (receiver : Value) (args : List Value) :
    S.Keeps (fun _ => True) (activation f rounds id receiver args) := by
  intro m hm h
  refine .of_reading ?_
  have hc := sameCalls hf (stable_true (S := S))
  have hnative : NativeCongruence .stay (fun x _ => S.Keeps (fun _ => True) x) :=
    nativeCongruence stable_true fun _ _ _ => trivial
  cases hkind : (m.heap.object id).kind with
  | closure k home =>
    exact keepsAt_callClosure hf hm rounds (hm.wellScoped.homes id k home hkind)
      (hm.closures id k home hkind) receiver args
  | native name native =>
    refine hnative.runNative hc native receiver args (fun host _ => ?_) m hm h
    exact hnative.runHost hc rfl (fun _ _ hm _ => keepsAt_throw hm _) host receiver args
  | plain | array | error => exact keepsAt_throw hm _

end Calls

theorem keeps_stopping (stop : Machine → Bool) {x : Eval Value} (hx : S.Keeps (fun _ => True) x) :
    S.Keeps (fun _ => True) (stopping stop x) := by
  intro m hm h
  have hkept := hx m hm h
  unfold KeepsAt stopping diverted at *
  split
  · exact Kept.refl hm
  · split
    · exact hkept
    · exact hkept

theorem keeps_entering (frame : Frame) {x : Eval Value} (hx : S.Keeps (fun _ => True) x) :
    S.Keeps (fun _ => True) (entering frame x) := by
  intro m hm _
  refine .of_reading ?_
  split
  · exact keepsAt_throwNamed hm _ _
  · have hkept := hx { m with frames := frame :: m.frames } (hm.congr rfl rfl hm.wellScoped.current)
      trivial
    show S.Kept m (final (always x _ _))
    rw [final_always]
    exact hkept.calls

theorem keeps_monitored (stop : Machine → Bool) (fuel : Nat) (id : ObjectId) (receiver : Value)
    (args : List Value) (frame : Frame) :
    S.Keeps (fun _ => True) (monitored (stopping stop) fuel id receiver args frame) := by
  induction fuel generalizing id receiver args frame with
  | zero => exact fun _ hm _ => keepsAt_throw hm _
  | succ fuel ih =>
    exact keeps_entering frame (keeps_stopping stop (keeps_activation ih fuel id receiver args))

theorem keeps_activity (stop : Machine → Bool) (fuel rounds : Nat) {α : Type} (a : Activity α) :
    S.Keeps (S.Admitted (· ∈ a.functions) (· ∈ a.writes) fun _ => True)
      (a.run (monitored (stopping stop) fuel) rounds) := by
  have hi := keeps_monitored (S := S) stop fuel
  have h {P : Function → Prop} {W V : String → Prop} :
      StmtCongruence P W V .stay (fun x _ => S.Keeps (S.Admitted P W V) x) := stmtCongruence
  have hc {P : Function → Prop} {W V : String → Prop} :=
    sameCalls hi (stable_admitted (P := P) (W := W) (V := V))
  have hl {P : Function → Prop} {W V : String → Prop} (loops : List Stmt) : ∀ l ∈ loops,
      rounds = rounds ∧ Looping .stay (fun x _ => S.Keeps (S.Admitted P W V) x) :=
    fun _ _ => ⟨rfl, looping⟩
  have hv (parts : List Stmt) : ∀ t ∈ parts, ∀ x ∈ t.hoistedNames, True := fun _ _ _ _ => trivial
  cases a with
  | expression e => exact Expr.eval_congr h.toExprCongruence hc e (fun _ h => h) fun _ h => h
  | statement s => exact Stmt.run_congr h hc s (fun _ h => h) (fun _ h => h) (hv _) (hl _)
  | statements ss =>
    exact Stmt.runAll_congr h hc none ss (fun _ h => h) (fun _ h => h) (hv _) (hl _)
  | body ss => exact runBody_congr h hc ss (fun _ h => h) (fun _ h => h) (hv _) (hl _)
  | block b =>
    have hbody := Block.runBody_congr h hc b (fun _ h => h) (fun _ h => h) (hv _) (hl _)
    exact (keeps_inBlock hbody).mono fun _ _ h => h.1
  | value callee receiver args => exact hc.value callee receiver args
  | call id receiver args frame => exact (hi id receiver args frame).mono fun _ _ _ => trivial

def nothing (s : ScopeId) : Seal :=
  ⟨s, [], fun _ => True, fun _ _ _ => trivial⟩

theorem sealed_nothing {s : ScopeId} (hm : m.WellScoped) (hs : s < m.scopes.size) :
    (nothing s).Sealed m where
  wellScoped := hm
  lt_size := hs
  closures _ _ _ _ _ := trivial
  spares _ _ _ _ hname := nomatch hname

theorem admitted_nothing (s : ScopeId) (P : Function → Prop) (W V : String → Prop) (m : Machine) :
    (nothing s).Admitted P W V m :=
  ⟨⟨fun _ _ _ => trivial, fun _ => nofun, fun _ => nofun⟩, fun _ => rfl⟩

end Seal

theorem Machine.WellScoped.activity {m : Machine} (hm : m.WellScoped) (stop : Machine → Bool)
    (fuel rounds : Nat) {α : Type} (a : Activity α) :
    (final (a.run (monitored (stopping stop) fuel) rounds m)).WellScoped :=
  (Seal.keeps_activity stop fuel rounds a m (Seal.sealed_nothing hm hm.current)
    (Seal.admitted_nothing _ _ _ _ m)).sealed.wellScoped

end ScriptEngine
