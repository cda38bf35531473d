import ScriptEngine.Proofs.Evaluation.Ways

/-!
# What becomes of bindings

Binding operations never remove a binding and never change its kind, and the value of a constant
stays: a declaration is refused where it would hide one, and an assignment keeps the kind of what it
finds. The one operation that writes without looking is the copy of loop variables back into the
scope of their loop. It finds its own values there, because both scopes have kept them.
-/

namespace ScriptEngine

namespace ScopeTree

/-- Every binding is still there with its kind, and a constant with its value. -/
structure Retains (t t' : ScopeTree) : Prop where
  size_le : t.size ≤ t'.size
  binding : ∀ id name b, t.getLocal? id name = some b →
    ∃ b', t'.getLocal? id name = some b' ∧ b'.kind = b.kind ∧ (b.kind = .const → b'.value = b.value)

theorem Retains.refl (t : ScopeTree) : t.Retains t :=
  ⟨Nat.le_refl _, fun _ _ b hb => ⟨b, hb, rfl, fun _ => rfl⟩⟩

theorem Retains.trans {t₁ t₂ t₃ : ScopeTree} (h₁ : t₁.Retains t₂) (h₂ : t₂.Retains t₃) :
    t₁.Retains t₃ := by
  refine ⟨Nat.le_trans h₁.size_le h₂.size_le, fun id name b hb => ?_⟩
  obtain ⟨b', hb', hkind, hvalue⟩ := h₁.binding id name b hb
  obtain ⟨b'', hb'', hkind', hvalue'⟩ := h₂.binding id name b' hb'
  refine ⟨b'', hb'', hkind'.trans hkind, fun hconst => ?_⟩
  rw [hvalue' (hkind.trans hconst), hvalue hconst]

variable {t t' : ScopeTree}

theorem lt_size_of_getLocal? {id : ScopeId} {name : String} {b : Binding}
    (h : t.getLocal? id name = some b) : id < t.size := by
  refine Nat.lt_of_not_le fun hsize => ?_
  have hscope : t.scope id = default := by simp [scope, hsize]
  simp [getLocal?, hscope, default, Scope.root] at h

theorem getLocal?_add (s : Scope) {id : ScopeId} (hid : id < t.size) (name : String) :
    (t.add s).getLocal? id name = t.getLocal? id name := by
  have hscope : (t.add s).scope id = t.scope id := by
    simp [scope, add, Array.getD_eq_getD_getElem?, Array.getElem?_push, Nat.ne_of_lt hid]
  rw [getLocal?, hscope, getLocal?]

theorem scope_modify (id : ScopeId) (f : Scope → Scope) (i : ScopeId) :
    scope (t.modify id f) i = if i = id ∧ id < t.size then f (t.scope i) else t.scope i := by
  simp only [scope, Array.getD_eq_getD_getElem?, Array.getElem?_modify]
  by_cases hi : id = i
  · subst hi
    by_cases hlt : id < t.size
    · simp [hlt]
    · simp [hlt]
  · simp [hi, Ne.symm hi]

theorem getLocal?_put (id : ScopeId) (name : String) (b : Binding) (i : ScopeId) (n : String) :
    (t.put id name b).getLocal? i n =
      if i = id ∧ n = name ∧ id < t.size then some b else t.getLocal? i n := by
  simp only [getLocal?, put, scope_modify]
  by_cases hid : i = id ∧ id < t.size
  · by_cases hn : n = name
    · subst hn
      simp [hid, Scope.bind]
    · simp [hid, hn, Scope.bind, Std.TreeMap.getElem?_insert, Ne.symm hn]
  · rw [if_neg hid, if_neg fun h => hid ⟨h.1, h.2.2⟩]

theorem size_put (id : ScopeId) (name : String) (b : Binding) :
    (t.put id name b).size = t.size := by
  simp [put]

theorem retains_put {id : ScopeId} {name : String} {b : Binding}
    (h : ∀ old, t.getLocal? id name = some old →
      b.kind = old.kind ∧ (old.kind = .const → b.value = old.value)) :
    t.Retains (t.put id name b) := by
  refine ⟨Nat.le_of_eq (size_put ..).symm, fun i n old hold => ?_⟩
  rw [getLocal?_put]
  split
  next hput =>
    obtain ⟨rfl, rfl, -⟩ := hput
    exact ⟨b, rfl, h old hold⟩
  next => exact ⟨old, hold, rfl, fun _ => rfl⟩

theorem retains_add (s : Scope) : t.Retains (t.add s) := by
  refine ⟨by simp [add], fun id name b hb => ⟨b, ?_, rfl, fun _ => rfl⟩⟩
  rw [getLocal?_add s (lt_size_of_getLocal? hb), hb]

theorem retains_declare {id : ScopeId} {name : String} {kind : BindingKind}
    (h : t.refuses id name kind = false) (v : Value) : t.Retains (t.put id name ⟨v, kind⟩) := by
  refine retains_put fun old hold => ?_
  simp only [refuses, hold, Bool.not_eq_eq_eq_not, Bool.not_false, Bool.and_eq_true,
    beq_iff_eq] at h
  refine ⟨h.2.trans h.1.symm, fun hconst => ?_⟩
  rw [h.1] at hconst
  cases hconst

theorem overwriteLocal_eq (id : ScopeId) (name : String) (v : Value) :
    t.overwriteLocal id name v =
      match t.getLocal? id name with
      | some old => t.put id name { old with value := v }
      | none => t := by
  have hscope : ∀ s, t[id]? = some s → t.scope id = s := by
    intro s hs
    simp [scope, Array.getD_eq_getD_getElem?, hs]
  cases hold : t.getLocal? id name <;> apply Array.ext_getElem? <;> intro i
  all_goals
    simp only [overwriteLocal, put, Array.getElem?_modify]
    split
    next hi =>
      subst hi
      cases hs : t[id]? with
      | none => rfl
      | some s =>
        rw [getLocal?, hscope s hs] at hold
        simp [Scope.overwrite, hold]
    next => rfl

theorem retains_overwriteLocal {id : ScopeId} {name : String} {v : Value}
    (h : ∀ old, t.getLocal? id name = some old → old.kind = .const → v = old.value) :
    t.Retains (t.overwriteLocal id name v) := by
  rw [overwriteLocal_eq]
  split
  next old hold =>
    refine retains_put fun old' hold' => ?_
    cases hold.symm.trans hold'
    exact ⟨rfl, h old hold⟩
  next => exact .refl t

section Assignment

variable {p q : Scope → Bool} {n : Nat} {id i : ScopeId}

theorem not_of_climb_eq_none (hp : t.climb p n id = none) (hq : t.climb q n id = some i) :
    p (t.scope i) = false := by
  induction n generalizing id with
  | zero => cases hq
  | succ n ih =>
    simp only [climb] at hp hq
    split at hp
    next => cases hp
    next hnot =>
      split at hq
      next =>
        cases hq
        simpa using hnot
      next =>
        cases hparent : (t.scope id).parent with
        | none =>
          rw [hparent] at hq
          cases hq
        | some parent =>
          rw [hparent] at hp hq
          exact ih hp hq

theorem not_of_nearest?_eq_none (hp : t.nearest? id p = none) :
    p (t.scope ((t.nearest? id q).getD id)) = false := by
  cases hq : t.nearest? id q with
  | some i => exact not_of_climb_eq_none hp hq
  | none =>
    simp only [nearest?, climb] at hp
    split at hp
    next => cases hp
    next hnot => simpa using hnot

theorem of_climb_eq_some (h : t.climb p n id = some i) : p (t.scope i) = true := by
  induction n generalizing id with
  | zero => cases h
  | succ n ih =>
    simp only [climb] at h
    split at h
    next hp =>
      cases h
      exact hp
    next =>
      split at h
      next => exact ih h
      next => cases h

theorem has_varScope_rootOf {name : String} (h : t.holder? id name = none) :
    (t.scope (t.varScope (t.rootOf id))).has name = false := by
  cases hroot : t.nearest? id (·.parent.isNone) with
  | none =>
    rw [rootOf, hroot]
    exact not_of_nearest?_eq_none h
  | some root =>
    have hparent : (t.scope root).parent = none := by
      simpa using of_climb_eq_some hroot
    have hvars : t.varScope root = root := by
      cases hholds : (t.scope root).holdsVars <;> simp [varScope, nearest?, climb, hparent, hholds]
    rw [rootOf, hroot, Option.getD_some, hvars]
    exact not_of_climb_eq_none h hroot

theorem retains_assign {name : String} {holder : ScopeId} {kind : BindingKind}
    (h : t.assignee id name = .ok (holder, kind)) (v : Value) :
    t.Retains (t.put holder name ⟨v, kind⟩) := by
  refine retains_put fun old hold => ?_
  unfold assignee at h
  split at h
  next hnone =>
    cases h
    have hhas := has_varScope_rootOf hnone
    rw [getLocal?] at hold
    simp [Scope.has, Std.TreeMap.contains_eq_isSome_getElem?, hold] at hhas
  next holder' _ =>
    split at h
    next hnone =>
      cases h
      cases hnone.symm.trans hold
    next b hb =>
      split at h
      next => cases h
      next hkind =>
        cases h
        cases hb.symm.trans hold
        exact ⟨rfl, fun hconst => absurd hconst (by simpa using hkind)⟩

end Assignment

/-- Two scopes have a name in common, with the same kind and, if that is constant, the same value.
-/
def Agree (t : ScopeTree) (i j : ScopeId) (name : String) : Prop :=
  ∃ b b', t.getLocal? i name = some b ∧ t.getLocal? j name = some b' ∧ b'.kind = b.kind ∧
    (b.kind = .const → b'.value = b.value)

theorem Agree.retains {i j : ScopeId} {name : String} (h : t.Agree i j name) (hr : t.Retains t') :
    t'.Agree i j name := by
  obtain ⟨b, b', hb, hb', hkind, hvalue⟩ := h
  obtain ⟨c, hc, hckind, hcvalue⟩ := hr.binding i name b hb
  obtain ⟨c', hc', hckind', hcvalue'⟩ := hr.binding j name b' hb'
  refine ⟨c, c', hc, hc', by rw [hckind', hkind, hckind], fun hconst => ?_⟩
  rw [hckind] at hconst
  rw [hcvalue' (hkind.trans hconst), hvalue hconst, hcvalue hconst]

theorem Agree.retains_overwrite {i j : ScopeId} {name : String} (h : t.Agree i j name) :
    ∃ b, t.getLocal? j name = some b ∧ t.Retains (t.overwriteLocal i name b.value) := by
  obtain ⟨b, b', hb, hb', -, hvalue⟩ := h
  refine ⟨b', hb', retains_overwriteLocal fun old hold hconst => ?_⟩
  cases hb.symm.trans hold
  exact hvalue hconst

end ScopeTree

structure Machine.Retains (m m' : Machine) : Prop where
  current : m'.current = m.current
  scopes : m.scopes.Retains m'.scopes

namespace Machine

theorem Retains.refl (m : Machine) : m.Retains m :=
  ⟨rfl, .refl _⟩

theorem Retains.trans {a b c : Machine} (hab : a.Retains b) (hbc : b.Retains c) : a.Retains c :=
  ⟨hbc.current.trans hab.current, hab.scopes.trans hbc.scopes⟩

def Binds (m : Machine) (names : List String) : Prop :=
  ∀ name ∈ names, (m.scopes.getLocal? m.current name).isSome

theorem Binds.retains {m m' : Machine} {names : List String} (h : m.Binds names)
    (hr : m.Retains m') : m'.Binds names := by
  intro name hname
  obtain ⟨b, hb⟩ := Option.isSome_iff_exists.mp (h name hname)
  obtain ⟨b', hb', -⟩ := hr.scopes.binding m.current name b hb
  rw [hr.current, hb']
  rfl

end Machine

namespace Eval

def final {α : Type} : EStateM.Result Failure Machine α → Machine
  | .ok _ m => m
  | .error _ m => m

theorem retains_declareLocal (id : ScopeId) (name : String) (v : Value) (kind : BindingKind)
    (m : Machine) : m.Retains (final (declareLocal id name v kind m)) := by
  simp only [declareLocal, reading, bind, EStateM.bind]
  cases hrefuses : m.scopes.refuses id name kind with
  | true => exact ⟨rfl, .refl _⟩
  | false => exact ⟨rfl, ScopeTree.retains_declare hrefuses v⟩

theorem binds_declare {name : String} {v : Value} {kind : BindingKind} (hkind : kind ≠ .var)
    {m m' : Machine} {u : Unit} (h : declare name v kind m = .ok u m')
    (hcurrent : m'.current < m'.scopes.size) : m'.Binds [name] := by
  have hscope : m.scopes.declarationScope m.current kind = m.current := by
    cases kind with
    | var => contradiction
    | let_ | const => rfl
  simp only [declare, declareLocal, reading, bind, EStateM.bind, hscope] at h
  cases hrefuses : m.scopes.refuses m.current name kind with
  | true =>
    rw [hrefuses] at h
    cases h
  | false =>
    rw [hrefuses] at h
    cases h
    intro n hn
    cases List.mem_singleton.mp hn
    have hlt : m.current < m.scopes.size := by
      simpa [ScopeTree.size_put] using hcurrent
    rw [ScopeTree.getLocal?_put, if_pos ⟨rfl, rfl, hlt⟩]
    rfl

theorem binds_initialised {kind : BindingKind} (hkind : kind ≠ .var) {name : String}
    {x : Eval Value} {m m' : Machine} {u : Unit}
    (h : (x >>= fun v => declare name v kind) m = .ok u m')
    (hcurrent : m'.current < m'.scopes.size) :
    m'.Binds [name] := by
  simp only [bind, EStateM.bind] at h
  cases hr : x m with
  | ok v m₁ =>
    rw [hr] at h
    exact binds_declare hkind h hcurrent
  | error e m₁ =>
    rw [hr] at h
    cases h

theorem binds_declarator {f : Invoke} {kind : BindingKind} (hkind : kind ≠ .var) {name : Ident}
    {init : Option Expr} {m m' : Machine} {u : Unit}
    (h : (Declarator.mk name init).run f kind m = .ok u m')
    (hcurrent : m'.current < m'.scopes.size) : m'.Binds [name.name] := by
  cases kind with
  | var => contradiction
  | let_ =>
    cases init with
    | none => exact binds_declare hkind h hcurrent
    | some e => exact binds_initialised hkind h hcurrent
  | const =>
    cases init with
    | none => cases h
    | some e => exact binds_initialised hkind h hcurrent

theorem binds_declaratorWith {ways : Ways} {f : Invoke} {kind : BindingKind} (hkind : kind ≠ .var)
    {name : Ident} {init : Option Expr} {m m' : Machine} {u : Unit}
    (h : (Declarator.mk name init).runWith ways f kind m = .ok u m')
    (hcurrent : m'.current < m'.scopes.size) : m'.Binds [name.name] := by
  cases init with
  | none => exact binds_declarator hkind h hcurrent
  | some e =>
    cases kind with
    | var => contradiction
    | let_ | const => exact binds_initialised hkind h hcurrent

theorem retains_copyInto (source target : ScopeId) (names : List String) (m : Machine) :
    m.Retains (final (copyInto source target names m)) := by
  induction names generalizing m with
  | nil => exact .refl m
  | cons name names ih =>
    simp only [copyInto, reading, bind, EStateM.bind]
    cases m.scopes.getLocal? source name with
    | none => exact ih m
    | some b =>
      have hdeclare := retains_declareLocal target name b.value b.kind m
      simp only [EStateM.bind]
      cases hr : declareLocal target name b.value b.kind m with
      | ok u m₁ =>
        rw [hr] at hdeclare
        exact hdeclare.trans (ih m₁)
      | error e m₁ =>
        rw [hr] at hdeclare
        exact hdeclare

theorem agree_of_copyInto {source target : ScopeId} (hne : source ≠ target) {names : List String}
    {m m' : Machine} {u : Unit} (htarget : target < m.scopes.size)
    (hnames : ∀ name ∈ names, (m.scopes.getLocal? source name).isSome)
    (h : copyInto source target names m = .ok u m') :
    ∀ name ∈ names, m'.scopes.Agree source target name := by
  induction names generalizing m with
  | nil => exact nofun
  | cons name names ih =>
    rw [List.forall_mem_cons] at hnames
    obtain ⟨b, hb⟩ := Option.isSome_iff_exists.mp hnames.1
    have hretains := retains_declareLocal target name b.value b.kind m
    simp only [copyInto, reading, bind, EStateM.bind, hb, declareLocal] at h hretains
    cases hrefuses : m.scopes.refuses target name b.kind with
    | true =>
      rw [hrefuses] at h
      cases h
    | false =>
      rw [hrefuses] at h hretains
      have hrest := retains_copyInto source target names
        { m with scopes := m.scopes.put target name ⟨b.value, b.kind⟩ }
      have hlt : target < (m.scopes.put target name ⟨b.value, b.kind⟩).size := by
        rwa [ScopeTree.size_put]
      refine List.forall_mem_cons.mpr ⟨?_, ih hlt (fun n hn => ?_) h⟩
      · have hagree : (m.scopes.put target name ⟨b.value, b.kind⟩).Agree source target name := by
          refine ⟨b, b, ?_, ?_, rfl, fun _ => rfl⟩
          · rw [ScopeTree.getLocal?_put, if_neg fun hput => hne hput.1, hb]
          · rw [ScopeTree.getLocal?_put, if_pos ⟨rfl, rfl, htarget⟩]
        refine hagree.retains ?_
        have hscopes := hrest.scopes
        rwa [show copyInto source target names _ = .ok u m' from h] at hscopes
      · rw [ScopeTree.getLocal?_put, if_neg fun hput => hne hput.1]
        exact hnames.2 n hn

theorem size_copyBack (source target : ScopeId) (names : List String) (m : Machine) :
    (copyBack source target names m).scopes.size = m.scopes.size := by
  induction names generalizing m with
  | nil => rfl
  | cons name names ih =>
    refine (ih _).trans ?_
    dsimp only
    cases m.scopes.getLocal? source name with
    | none => rfl
    | some b => exact Array.size_modify

end Eval

end ScriptEngine
