import ScriptEngine.Proofs.Evaluation.Enclosure

/-!
# Scopes as a store

From a scope a name resolves to its innermost binding along the parents, or it is unbound up to the
root. An assignment writes that binding, or a new `var` of the root, and no other one; what a name
means changes only where it resolves to what was written. Constants refuse it.
-/

namespace ScriptEngine

namespace ScopeTree

/-- From a scope a name resolves to a binding of a scope: its own, or what its parent finds. -/
inductive Resolves (t : ScopeTree) (name : String) : ScopeId → ScopeId → Binding → Prop
  | here {s : ScopeId} {b : Binding} (h : t.getLocal? s name = some b) : Resolves t name s s b
  | above {s parent holder : ScopeId} {b : Binding} (h : t.getLocal? s name = none)
      (hparent : (t.scope s).parent = some parent) (habove : Resolves t name parent holder b) :
      Resolves t name s holder b

inductive Unbound (t : ScopeTree) (name : String) : ScopeId → ScopeId → Prop
  | top {s : ScopeId} (h : t.getLocal? s name = none) (hparent : (t.scope s).parent = none) :
      Unbound t name s s
  | above {s parent root : ScopeId} (h : t.getLocal? s name = none)
      (hparent : (t.scope s).parent = some parent) (habove : Unbound t name parent root) :
      Unbound t name s root

structure Stores (t : ScopeTree) (holder : ScopeId) (name : String) (b : Binding)
    (t' : ScopeTree) : Prop where
  size : t'.size = t.size
  frame : ∀ id, (t'.scope id).parent = (t.scope id).parent ∧
    (t'.scope id).holdsVars = (t.scope id).holdsVars ∧
    (t'.scope id).receiver = (t.scope id).receiver
  written : t'.getLocal? holder name = some b
  others : ∀ id n, ¬(id = holder ∧ n = name) → t'.getLocal? id n = t.getLocal? id n

variable {t t' : ScopeTree} {name : String} {s holder root : ScopeId} {b : Binding}

section Resolution

theorem Resolves.binding (h : t.Resolves name s holder b) : t.getLocal? holder name = some b := by
  induction h with
  | here h => exact h
  | above _ _ _ ih => exact ih

theorem Unbound.le (ht : t.Ordered) (h : t.Unbound name s root) : root ≤ s := by
  induction h with
  | top => exact Nat.le_refl _
  | above _ hparent _ ih => exact Nat.le_trans ih (Nat.le_of_lt (ht _ _ hparent))

theorem resolves_or_unbound (ht : t.Ordered) (name : String) (s : ScopeId) :
    (∃ holder b, t.Resolves name s holder b) ∨ ∃ root, t.Unbound name s root := by
  induction s using Nat.strongRecOn with
  | _ s ih =>
    cases hb : t.getLocal? s name with
    | some b => exact .inl ⟨s, b, .here hb⟩
    | none =>
      cases hparent : (t.scope s).parent with
      | none => exact .inr ⟨s, .top hb hparent⟩
      | some parent =>
        obtain ⟨holder, b, h⟩ | ⟨root, h⟩ := ih parent (ht s parent hparent)
        · exact .inl ⟨holder, b, .above hb hparent h⟩
        · exact .inr ⟨root, .above hb hparent h⟩

theorem has_of_getLocal?_eq_none (h : t.getLocal? s name = none) :
    (t.scope s).has name = false := by
  rw [has_eq, h]
  rfl

theorem Resolves.holder? (ht : t.Ordered) (h : t.Resolves name s holder b) :
    t.holder? s name = some holder := by
  induction h with
  | here h => exact nearest?_of_pos (by rw [has_eq, h]; rfl)
  | above h hparent _ ih =>
    exact (nearest?_of_not ht hparent (has_of_getLocal?_eq_none h)).trans ih

theorem Unbound.holder? (ht : t.Ordered) (h : t.Unbound name s root) : t.holder? s name = none := by
  induction h with
  | top h hparent =>
    simp [ScopeTree.holder?, nearest?, climb, hparent, has_of_getLocal?_eq_none h]
  | above h hparent _ ih =>
    exact (nearest?_of_not ht hparent (has_of_getLocal?_eq_none h)).trans ih

theorem Resolves.lookup? (ht : t.Ordered) (h : t.Resolves name s holder b) :
    t.lookup? s name = some b.value := by
  simp [ScopeTree.lookup?, h.holder? ht, h.binding]

theorem Unbound.lookup? (ht : t.Ordered) (h : t.Unbound name s root) : t.lookup? s name = none := by
  simp [ScopeTree.lookup?, h.holder? ht]

theorem lookup?_of_parent (ht : t.Ordered) {parent : ScopeId} (h : t.getLocal? s name = none)
    (hparent : (t.scope s).parent = some parent) : t.lookup? s name = t.lookup? parent name := by
  obtain ⟨holder, b, hr⟩ | ⟨root, hu⟩ := resolves_or_unbound ht name parent
  · rw [hr.lookup? ht, (Resolves.above h hparent hr).lookup? ht]
  · rw [hu.lookup? ht, (Unbound.above h hparent hu).lookup? ht]

end Resolution

section Assignment

theorem Unbound.rootOf (ht : t.Ordered) (h : t.Unbound name s root) : t.rootOf s = root := by
  have hnearest : t.nearest? s (·.parent.isNone) = some root := by
    induction h with
    | top _ hparent => exact nearest?_of_pos (by rw [hparent]; rfl)
    | above _ hparent _ ih =>
      exact (nearest?_of_not ht hparent (by rw [hparent]; rfl)).trans ih
  rw [ScopeTree.rootOf, hnearest, Option.getD_some]

theorem Unbound.parent (h : t.Unbound name s root) : (t.scope root).parent = none := by
  induction h with
  | top _ hparent => exact hparent
  | above _ _ _ ih => exact ih

theorem varScope_of_parent_eq_none (h : (t.scope s).parent = none) : t.varScope s = s := by
  cases hholds : (t.scope s).holdsVars <;> simp [varScope, nearest?, climb, h, hholds]

theorem Resolves.assign (ht : t.Ordered) (h : t.Resolves name s holder b) (v : Value) :
    t.assign s name v =
      if b.kind = .const then .error .constAssignment else .ok (t.put holder name ⟨v, b.kind⟩) := by
  unfold ScopeTree.assign assignee
  rw [h.holder? ht]
  by_cases hconst : b.kind = .const <;> simp [h.binding, hconst]

theorem Unbound.assign (ht : t.Ordered) (h : t.Unbound name s root) (v : Value) :
    t.assign s name v = .ok (t.put root name ⟨v, .var⟩) := by
  unfold ScopeTree.assign assignee
  rw [h.holder? ht]
  simp only [h.rootOf ht, varScope_of_parent_eq_none h.parent]

theorem receiver_put (i : ScopeId) (name : String) (b : Binding) (id : ScopeId) :
    ((t.put i name b).scope id).receiver = (t.scope id).receiver := by
  simp only [put, scope_modify]
  split <;> rfl

theorem stores_put (hholder : holder < t.size) (name : String) (b : Binding) :
    t.Stores holder name b (t.put holder name b) where
  size := size_put ..
  frame id := ⟨parent_put .., holdsVars_put .., receiver_put ..⟩
  written := by rw [getLocal?_put, if_pos ⟨rfl, rfl, hholder⟩]
  others id n hne := by rw [getLocal?_put, if_neg fun h => hne ⟨h.1, h.2.1⟩]

theorem Stores.ordered (h : t.Stores holder name b t') (ht : t.Ordered) : t'.Ordered := by
  intro id parent hparent
  rw [(h.frame id).1] at hparent
  exact ht id parent hparent

theorem Stores.lookup?_cases (h : t.Stores holder name b t') (ht : t.Ordered) (i : ScopeId)
    (n : String) : t'.lookup? i n = t.lookup? i n ∨ n = name ∧ t'.Resolves name i holder b := by
  have ht' := h.ordered ht
  -- Both trees have the same parents, so both look-ups climb side by side.
  induction i using Nat.strongRecOn with
  | _ i ih =>
    by_cases hwritten : i = holder ∧ n = name
    · obtain ⟨rfl, rfl⟩ := hwritten
      exact .inr ⟨rfl, .here h.written⟩
    · have hlocal := h.others i n hwritten
      cases hb : t.getLocal? i n with
      | some c =>
        rw [hb] at hlocal
        rw [(Resolves.here hlocal).lookup? ht', (Resolves.here hb).lookup? ht]
        exact .inl rfl
      | none =>
        rw [hb] at hlocal
        cases hparent : (t.scope i).parent with
        | none =>
          have hparent' := (h.frame i).1.trans hparent
          rw [(Unbound.top hlocal hparent').lookup? ht', (Unbound.top hb hparent).lookup? ht]
          exact .inl rfl
        | some parent =>
          have hparent' := (h.frame i).1.trans hparent
          obtain hsame | ⟨rfl, hr⟩ := ih parent (ht i parent hparent)
          · rw [lookup?_of_parent ht hb hparent, lookup?_of_parent ht' hlocal hparent', hsame]
            exact .inl rfl
          · exact .inr ⟨rfl, .above hlocal hparent' hr⟩

theorem Stores.resolves_above (h : t.Stores holder name b t') {parent : ScopeId}
    (hlocal : t.getLocal? s name = none) (hparent : (t.scope s).parent = some parent)
    (habove : t'.Resolves name parent holder b) : t'.Resolves name s holder b := by
  by_cases hs : s = holder
  · subst hs
    exact .here h.written
  · refine .above ?_ ((h.frame s).1.trans hparent) habove
    rw [h.others s name fun hne => hs hne.1, hlocal]

theorem Stores.resolves (h : t.Stores holder name b t') {old : Binding}
    (hold : t.Resolves name s holder old) : t'.Resolves name s holder b := by
  induction hold with
  | here => exact .here h.written
  | above hlocal hparent _ ih => exact h.resolves_above hlocal hparent (ih h)

theorem Stores.resolves_root (h : t.Stores root name b t') (hunbound : t.Unbound name s root) :
    t'.Resolves name s root b := by
  induction hunbound with
  | top => exact .here h.written
  | above hlocal hparent _ ih => exact h.resolves_above hlocal hparent (ih h)

end Assignment

theorem assign_in_machine (m : Machine) (name : String) (v : Value) :
    (∃ t', m.scopes.assign m.current name v = .ok t' ∧
      Eval.assign name v m = .ok () { m with scopes := t' }) ∨
    ∃ e f m', m.scopes.assign m.current name v = .error e ∧ Eval.assign name v m = .error f m' ∧
      m'.scopes = m.scopes := by
  unfold ScopeTree.assign Eval.assign
  simp only [Eval.reading, bind, EStateM.bind]
  cases m.scopes.assignee m.current name with
  | ok place => exact .inl ⟨_, rfl, rfl⟩
  | error e => exact .inr ⟨e, _, _, rfl, rfl, rfl⟩

theorem assign_cases (ht : t.Ordered) (hs : s < t.size) (name : String) (v : Value) :
    (t.assign s name v = .error .constAssignment ∧
      ∃ holder b, t.Resolves name s holder b ∧ b.kind = .const) ∨
    ((∀ holder b, t.Resolves name s holder b → b.kind ≠ .const) ∧ ∃ holder kind t',
      t.assign s name v = .ok t' ∧ t.Stores holder name ⟨v, kind⟩ t' ∧
      t'.Resolves name s holder ⟨v, kind⟩ ∧
      ((∃ old, t.Resolves name s holder ⟨old, kind⟩) ∨ t.Unbound name s holder ∧ kind = .var)) := by
  obtain ⟨holder, ⟨old, kind⟩, hr⟩ | ⟨root, hu⟩ := resolves_or_unbound ht name s
  · have hassign := hr.assign ht v
    by_cases hconst : kind = .const
    · exact .inl ⟨by rw [hassign, if_pos hconst], holder, _, hr, hconst⟩
    · rw [if_neg hconst] at hassign
      have hstores := stores_put (lt_size_of_getLocal? hr.binding) name ⟨v, kind⟩
      refine .inr ⟨fun i b hi hkind => ?_, holder, kind, _, hassign, hstores, hstores.resolves hr,
        .inl ⟨old, hr⟩⟩
      rw [hi.assign ht v, if_pos hkind] at hassign
      cases hassign
  · have hassign := hu.assign ht v
    have hstores := stores_put (Nat.lt_of_le_of_lt (hu.le ht) hs) name ⟨v, .var⟩
    refine .inr ⟨fun i b hi hkind => ?_, root, .var, _, hassign, hstores, hstores.resolves_root hu,
      .inr ⟨hu, rfl⟩⟩
    rw [hi.assign ht v, if_pos hkind] at hassign
    cases hassign

/-- The store law. An assignment is refused exactly when the name resolves to a constant. Otherwise
one binding of the tree is written, with its kind kept: what the name resolves to, or a new `var` of
the root if it is unbound. From the scope the name means the value then, and from any scope a name
changes its meaning only if it resolves to that binding. A machine that refuses keeps its scopes. -/
theorem assignment_writes_innermost_binding (t : ScopeTree) (ht : t.Ordered) (s : ScopeId)
    (hs : s < t.size) (name : String) (v : Value) :
    (∀ e, t.assign s name v = .error e ↔
      e = .constAssignment ∧ ∃ holder b, t.Resolves name s holder b ∧ b.kind = .const) ∧
    (∀ t', t.assign s name v = .ok t' → ∃ holder kind,
      ((∃ old, t.Resolves name s holder ⟨old, kind⟩) ∨ t.Unbound name s holder ∧ kind = .var) ∧
      t.Stores holder name ⟨v, kind⟩ t' ∧ t'.lookup? s name = some v ∧
      ∀ i n, t'.lookup? i n ≠ t.lookup? i n → n = name ∧ t'.Resolves name i holder ⟨v, kind⟩) ∧
    ∀ m : Machine, m.scopes = t → m.current = s →
      (∃ t', t.assign s name v = .ok t' ∧ Eval.assign name v m = .ok () { m with scopes := t' }) ∨
      ∃ e f m', t.assign s name v = .error e ∧ Eval.assign name v m = .error f m' ∧
        m'.scopes = t := by
  refine ⟨fun e => ?_, fun t' hok => ?_, ?_⟩
  · obtain ⟨hassign, hconst⟩ | ⟨hnever, _, _, t', hassign, -⟩ := assign_cases ht hs name v
    · rw [hassign, Except.error.injEq]
      exact ⟨fun he => ⟨he.symm, hconst⟩, fun he => he.1.symm⟩
    · rw [hassign]
      refine ⟨fun he => (nomatch he), ?_⟩
      rintro ⟨-, holder, b, hr, hkind⟩
      exact absurd hkind (hnever holder b hr)
  · obtain ⟨hassign, -⟩ | ⟨-, holder, kind, _, hassign, hstores, hr, hplace⟩ :=
      assign_cases ht hs name v
    · rw [hassign] at hok
      cases hok
    · rw [hassign] at hok
      cases hok
      refine ⟨holder, kind, hplace, hstores, hr.lookup? (hstores.ordered ht), fun i n hne => ?_⟩
      exact (hstores.lookup?_cases ht i n).resolve_left hne
  · rintro m rfl rfl
    exact assign_in_machine m name v

/-- A constant of the root that one function of two hides; the function has two blocks. -/
def halfHidden : ScopeTree :=
  #[Scope.root.bind "x" ⟨.null, .const⟩, (Scope.function 0 .undefined).bind "x" ⟨.null, .let_⟩,
    Scope.block 1, Scope.block 1, Scope.function 0 .undefined]

theorem halfHidden_ordered : halfHidden.Ordered := by
  intro id parent hparent
  match id with
  | 0 => cases hparent
  | 1 | 2 | 3 | 4 => cases hparent; decide
  | n + 5 => cases hparent

/-- From a block the assignment writes the function's binding and the other block sees it; from the
other function it is refused. -/
theorem assignment_writes_innermost_binding_halfHidden :
    (∃ t', halfHidden.assign 2 "x" (.bool true) = .ok t' ∧
      t'.lookup? 2 "x" = some (.bool true) ∧ t'.lookup? 3 "x" = some (.bool true)) ∧
    halfHidden.assign 4 "x" (.bool true) = .error .constAssignment := by
  have hroot : halfHidden.getLocal? 0 "x" = some ⟨.null, .const⟩ := by
    simp [halfHidden, getLocal?, scope, Scope.bind]
  have hfunction : halfHidden.getLocal? 1 "x" = some ⟨.null, .let_⟩ := by
    simp [halfHidden, getLocal?, scope, Scope.bind]
  have hblock (i : ScopeId) (hi : i = 2 ∨ i = 3) : halfHidden.Resolves "x" i 1 ⟨.null, .let_⟩ := by
    obtain rfl | rfl := hi <;> exact .above rfl rfl (.here hfunction)
  have hother : halfHidden.Resolves "x" 4 0 ⟨.null, .const⟩ := .above rfl rfl (.here hroot)
  have hlaw := assignment_writes_innermost_binding halfHidden halfHidden_ordered
  refine ⟨?_, ((hlaw 4 (by decide) "x" (.bool true)).1 _).mpr ⟨rfl, 0, _, hother, rfl⟩⟩
  have hok := (hblock 2 (.inl rfl)).assign halfHidden_ordered (.bool true)
  rw [if_neg (by decide)] at hok
  have hstores := stores_put (lt_size_of_getLocal? hfunction) "x" ⟨.bool true, .let_⟩
  obtain ⟨_, _, -, -, hlookup, -⟩ := (hlaw 2 (by decide) "x" (.bool true)).2.1 _ hok
  exact ⟨_, hok, hlookup,
    (hstores.resolves (hblock 3 (.inr rfl))).lookup? (hstores.ordered halfHidden_ordered)⟩

end ScopeTree

end ScriptEngine
