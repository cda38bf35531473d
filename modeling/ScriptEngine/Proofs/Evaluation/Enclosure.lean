import ScriptEngine.Proofs.Evaluation.Admission

/-!
# Scopes inside scopes

A scope is inside another if the other is among its parents. Scopes never get another parent, so
what is inside what is settled when a scope is made. A name that some scope binds is found from
everywhere inside it.
-/

namespace ScriptEngine

namespace ScopeTree

/-- Every scope is younger than its parent. -/
def Ordered (t : ScopeTree) : Prop :=
  ∀ id parent, (t.scope id).parent = some parent → parent < id

/-- A scope is `s` itself or below it. -/
inductive Inside (t : ScopeTree) (s : ScopeId) : ScopeId → Prop where
  | here : Inside t s s
  | under {id parent : ScopeId} (hparent : (t.scope id).parent = some parent) (hlt : parent < id)
      (h : Inside t s parent) : Inside t s id

structure Grows (t t' : ScopeTree) : Prop where
  size_le : t.size ≤ t'.size
  parent : ∀ id < t.size, (t'.scope id).parent = (t.scope id).parent
  holdsVars : ∀ id < t.size, (t'.scope id).holdsVars = (t.scope id).holdsVars
  bound : ∀ id name, (t.getLocal? id name).isSome → (t'.getLocal? id name).isSome

theorem Grows.refl (t : ScopeTree) : t.Grows t :=
  ⟨Nat.le_refl _, fun _ _ => rfl, fun _ _ => rfl, fun _ _ h => h⟩

theorem Grows.trans {t₁ t₂ t₃ : ScopeTree} (h₁ : t₁.Grows t₂) (h₂ : t₂.Grows t₃) : t₁.Grows t₃ where
  size_le := Nat.le_trans h₁.size_le h₂.size_le
  parent id hid := (h₂.parent id (Nat.lt_of_lt_of_le hid h₁.size_le)).trans (h₁.parent id hid)
  holdsVars id hid :=
    (h₂.holdsVars id (Nat.lt_of_lt_of_le hid h₁.size_le)).trans (h₁.holdsVars id hid)
  bound id name h := h₂.bound id name (h₁.bound id name h)

variable {t t' : ScopeTree} {s id : ScopeId}

@[simp] theorem parent_put (i : ScopeId) (name : String) (b : Binding) (id : ScopeId) :
    ((t.put i name b).scope id).parent = (t.scope id).parent := by
  simp only [put, scope_modify]
  split <;> rfl

@[simp] theorem holdsVars_put (i : ScopeId) (name : String) (b : Binding) (id : ScopeId) :
    ((t.put i name b).scope id).holdsVars = (t.scope id).holdsVars := by
  simp only [put, scope_modify]
  split <;> rfl

theorem scope_add (new : Scope) (id : ScopeId) :
    (t.add new).scope id = if id = t.size then new else t.scope id := by
  simp only [scope, add, Array.getD_eq_getD_getElem?, Array.getElem?_push]
  split <;> rfl

theorem grows_put (i : ScopeId) (name : String) (b : Binding) : t.Grows (t.put i name b) := by
  refine ⟨Nat.le_of_eq (size_put ..).symm, by simp, by simp, fun id n h => ?_⟩
  rw [getLocal?_put]
  split
  · rfl
  · exact h

theorem grows_add (new : Scope) : t.Grows (t.add new) := by
  refine ⟨by simp [add], fun id hid => ?_, fun id hid => ?_, fun id name h => ?_⟩
  · rw [scope_add, if_neg (Nat.ne_of_lt hid)]
  · rw [scope_add, if_neg (Nat.ne_of_lt hid)]
  · obtain ⟨b, hb⟩ := Option.isSome_iff_exists.mp h
    rwa [getLocal?_add new (lt_size_of_getLocal? hb)]

theorem Ordered.put (ht : t.Ordered) (i : ScopeId) (name : String) (b : Binding) :
    (t.put i name b).Ordered := by
  intro id parent hparent
  rw [parent_put] at hparent
  exact ht id parent hparent

theorem Ordered.add (ht : t.Ordered) {new : Scope}
    (hnew : ∀ parent, new.parent = some parent → parent < t.size) : (t.add new).Ordered := by
  intro id parent hparent
  rw [scope_add] at hparent
  split at hparent
  next hid =>
    rw [hid]
    exact hnew parent hparent
  next => exact ht id parent hparent

theorem Inside.le (h : t.Inside s id) : s ≤ id := by
  induction h with
  | here => exact Nat.le_refl _
  | under _ hlt _ ih => exact Nat.le_trans ih (Nat.le_of_lt hlt)

theorem Inside.trans {g : ScopeId} (h : t.Inside s g) (h' : t.Inside g id) : t.Inside s id := by
  induction h' with
  | here => exact h
  | under hparent hlt _ ih => exact .under hparent hlt ih

theorem Inside.parent (h : t.Inside s id) (hne : id ≠ s) {parent : ScopeId}
    (hparent : (t.scope id).parent = some parent) : t.Inside s parent := by
  cases h with
  | here => exact absurd rfl hne
  | under hparent' _ h =>
    rw [hparent] at hparent'
    cases hparent'
    exact h

theorem Grows.inside_iff (h : t.Grows t') (hid : id < t.size) :
    t'.Inside s id ↔ t.Inside s id := by
  constructor
  · intro hinside
    induction hinside with
    | here => exact .here
    | under hparent hlt _ ih =>
      rw [h.parent _ hid] at hparent
      exact .under hparent hlt (ih (Nat.lt_trans hlt hid))
  · intro hinside
    induction hinside with
    | here => exact .here
    | under hparent hlt _ ih =>
      refine .under ?_ hlt (ih (Nat.lt_trans hlt hid))
      rw [h.parent _ hid, hparent]

theorem inside_add_iff (hs : s < t.size) {new : Scope} {parent : ScopeId}
    (hparent : new.parent = some parent) (hlt : parent < t.size) :
    (t.add new).Inside s t.size ↔ t.Inside s parent := by
  have hscope : ((t.add new).scope t.size).parent = some parent := by
    rw [scope_add, if_pos rfl, hparent]
  rw [← (grows_add new).inside_iff hlt]
  exact ⟨fun h => h.parent (Nat.ne_of_gt hs) hscope, fun h => .under hscope hlt h⟩

theorem has_eq (t : ScopeTree) (id : ScopeId) (name : String) :
    (t.scope id).has name = (t.getLocal? id name).isSome :=
  Std.TreeMap.contains_eq_isSome_getElem?

section Climbing

variable {p : Scope → Bool} {n : Nat} {i : ScopeId}

theorem inside_of_climb (ht : t.Ordered) (h : t.climb p n id = some i) : t.Inside i id := by
  induction n generalizing id with
  | zero => cases h
  | succ n ih =>
    simp only [climb] at h
    split at h
    next =>
      cases h
      exact .here
    next =>
      cases hparent : (t.scope id).parent with
      | none =>
        rw [hparent] at h
        cases h
      | some parent =>
        rw [hparent] at h
        exact .under hparent (ht id parent hparent) (ih h)

theorem inside_varScope (ht : t.Ordered) (id : ScopeId) : t.Inside (t.varScope id) id := by
  unfold varScope
  cases hfound : t.nearest? id (·.holdsVars) with
  | none => exact .here
  | some s => exact inside_of_climb ht hfound

theorem Inside.climb_isSome (h : t.Inside s id) (hp : p (t.scope s) = true) (hn : id < n) :
    (t.climb p n id).isSome := by
  induction h generalizing n with
  | here =>
    obtain ⟨n, rfl⟩ := Nat.exists_eq_succ_of_ne_zero (Nat.ne_zero_of_lt hn)
    simp [climb, hp]
  | under hparent hlt _ ih =>
    obtain ⟨n, rfl⟩ := Nat.exists_eq_succ_of_ne_zero (Nat.ne_zero_of_lt hn)
    simp only [climb]
    split
    · rfl
    · rw [hparent]
      exact ih (Nat.lt_of_lt_of_le hlt (Nat.le_of_lt_succ hn))

/-- Parents are older, so a climb that is long enough is as good as a longer one. -/
theorem climb_eq_of_lt (ht : t.Ordered) {n' : Nat} (hn : id < n) (hn' : id < n') :
    t.climb p n id = t.climb p n' id := by
  induction n generalizing n' id with
  | zero => exact absurd hn (Nat.not_lt_zero id)
  | succ n ih =>
    obtain ⟨n', rfl⟩ := Nat.exists_eq_succ_of_ne_zero (Nat.ne_zero_of_lt hn')
    simp only [climb]
    split
    · rfl
    · cases hparent : (t.scope id).parent with
      | none => rfl
      | some parent =>
        have hlt := ht id parent hparent
        exact ih (Nat.lt_of_lt_of_le hlt (Nat.le_of_lt_succ hn))
          (Nat.lt_of_lt_of_le hlt (Nat.le_of_lt_succ hn'))

theorem nearest?_of_pos (hp : p (t.scope id) = true) : t.nearest? id p = some id := by
  simp [nearest?, climb, hp]

theorem nearest?_of_not (ht : t.Ordered) {parent : ScopeId}
    (hparent : (t.scope id).parent = some parent) (hp : p (t.scope id) = false) :
    t.nearest? id p = t.nearest? parent p := by
  have hclimb := climb_eq_of_lt (p := p) ht (ht id parent hparent) (Nat.lt_succ_self parent)
  rw [nearest?, climb]
  simp only [hp, hparent]
  exact hclimb

theorem Grows.nearest?_holdsVars (h : t.Grows t') (ht : t.Ordered) (hid : id < t.size) :
    t'.nearest? id (·.holdsVars) = t.nearest? id (·.holdsVars) := by
  have hclimbs : ∀ n id, id < t.size →
      t'.climb (·.holdsVars) n id = t.climb (·.holdsVars) n id := by
    intro n
    induction n with
    | zero => exact fun _ _ => rfl
    | succ n ih =>
      intro id hid
      simp only [climb, h.holdsVars id hid, h.parent id hid]
      split
      · rfl
      · split
        next parent hparent => exact ih parent (Nat.lt_trans (ht id parent hparent) hid)
        next => rfl
  exact hclimbs (id + 1) id hid

theorem Grows.nearest?_eq_some (h : t.Grows t') (ht : t.Ordered) (hid : id < t.size)
    (hfound : t.nearest? id p = some s) (hp : p (t'.scope s) = true)
    (hpassed : ∀ g ≤ id, t.Inside s g → p (t.scope g) = false → p (t'.scope g) = false) :
    t'.nearest? id p = some s := by
  have hclimbs : ∀ n i, i ≤ id → t.climb p n i = some s → t'.climb p n i = some s := by
    intro n
    induction n with
    | zero => exact fun _ _ hclimb => nomatch hclimb
    | succ n ih =>
      intro i hi hclimb
      have hinside := inside_of_climb ht hclimb
      simp only [climb, h.parent i (Nat.lt_of_le_of_lt hi hid)] at hclimb ⊢
      split at hclimb
      next =>
        cases hclimb
        rw [if_pos hp]
      next hnot =>
        rw [hpassed i hi hinside (Bool.eq_false_iff.mpr hnot), if_neg Bool.false_ne_true]
        split at hclimb
        next parent hparent =>
          have hle := Nat.le_of_lt (ht i parent hparent)
          exact ih parent (Nat.le_trans hle hi) hclimb
        next => cases hclimb
  exact hclimbs (id + 1) id (Nat.le_refl id) hfound

theorem Inside.lookup?_isSome (h : t.Inside s id) {name : String}
    (hname : (t.getLocal? s name).isSome) : (t.lookup? id name).isSome := by
  have hfound := h.climb_isSome (p := (·.has name)) (by rw [has_eq, hname]) (Nat.lt_succ_self id)
  obtain ⟨holder, hholder⟩ := Option.isSome_iff_exists.mp hfound
  have hbound := of_climb_eq_some hholder
  rw [has_eq] at hbound
  have hholder? : t.holder? id name = some holder := hholder
  simpa [lookup?, hholder?] using hbound

theorem exists_root (ht : t.Ordered) (id : ScopeId) :
    ∃ root, t.nearest? id (·.parent.isNone) = some root ∧ (t.scope root).parent = none := by
  have hclimbs : ∀ n id, id < n → (t.climb (·.parent.isNone) n id).isSome := by
    intro n
    induction n with
    | zero => exact fun id hid => absurd hid (Nat.not_lt_zero id)
    | succ n ih =>
      intro id hid
      simp only [climb]
      split
      next => rfl
      next =>
        split
        next parent hparent =>
          exact ih parent (Nat.lt_of_lt_of_le (ht id parent hparent) (by omega))
        next hparent => simp_all
  obtain ⟨root, hroot⟩ := Option.isSome_iff_exists.mp (hclimbs (id + 1) id (Nat.lt_succ_self id))
  exact ⟨root, hroot, by simpa using of_climb_eq_some hroot⟩

theorem varScope_rootOf (ht : t.Ordered) (id : ScopeId) :
    (t.scope (t.varScope (t.rootOf id))).parent = none ∧
      t.Inside (t.varScope (t.rootOf id)) id := by
  obtain ⟨root, hroot, hparent⟩ := exists_root ht id
  have hvars : t.varScope root = root := by
    cases hholds : (t.scope root).holdsVars <;> simp [varScope, nearest?, climb, hparent, hholds]
  rw [rootOf, hroot, Option.getD_some, hvars]
  exact ⟨hparent, inside_of_climb ht hroot⟩

theorem varScope_of_holdsVars (h : (t.scope id).holdsVars = true) : t.varScope id = id := by
  rw [varScope, nearest?_of_pos h, Option.getD_some]

end Climbing

end ScopeTree

structure Machine.WellScoped (m : Machine) : Prop where
  ordered : m.scopes.Ordered
  current : m.current < m.scopes.size
  homes : ∀ id f home, (m.heap.object id).kind = .closure f home → home < m.scopes.size

namespace Machine.WellScoped

variable {m : Machine}

theorem alloc (hm : m.WellScoped) {o : Object}
    (ho : ∀ f home, o.kind = .closure f home → home < m.scopes.size) :
    WellScoped { m with heap := m.heap.alloc o } := by
  refine ⟨hm.ordered, hm.current, fun id f home hkind => ?_⟩
  rw [Heap.object_alloc] at hkind
  split at hkind
  · exact ho f home hkind
  · exact hm.homes id f home hkind

theorem modify (hm : m.WellScoped) {f : Object → Object}
    (hf : ∀ o : Object, o.kind.Similar (f o).kind) (id : ObjectId) :
    WellScoped { m with heap := m.heap.modify id f } := by
  refine ⟨hm.ordered, hm.current, fun i k home hkind => ?_⟩
  exact hm.homes i k home ((m.heap.similar_modify hf id i).closure hkind)

theorem put (hm : m.WellScoped) (id : ScopeId) (name : String) (b : Binding) :
    WellScoped { m with scopes := m.scopes.put id name b } where
  ordered := hm.ordered.put id name b
  current := by
    rw [ScopeTree.size_put]
    exact hm.current
  homes i f home hkind := by
    rw [ScopeTree.size_put]
    exact hm.homes i f home hkind

theorem addScope (hm : m.WellScoped) {new : Scope} {parent : ScopeId}
    (hparent : new.parent = some parent) (hlt : parent < m.scopes.size) :
    WellScoped { m with scopes := m.scopes.add new } where
  ordered := by
    refine hm.ordered.add fun p hp => ?_
    rw [hparent] at hp
    cases hp
    exact hlt
  current := Nat.lt_of_lt_of_le hm.current (ScopeTree.grows_add new).size_le
  homes i f home hkind :=
    Nat.lt_of_lt_of_le (hm.homes i f home hkind) (ScopeTree.grows_add new).size_le

theorem enter (hm : m.WellScoped) {id : ScopeId} (hid : id < m.scopes.size) :
    WellScoped { m with current := id } :=
  ⟨hm.ordered, hid, hm.homes⟩

end Machine.WellScoped

theorem Machine.start_wellScoped (prelude : Bool) (maxCallDepth : Option UInt64) :
    (start prelude maxCallDepth).WellScoped := by
  refine start_induction ?_ ?_ ?_ maxCallDepth ?_ prelude
  · exact fun m id key v hm => hm.modify (fun o => o.similar_define key v) id
  · exact fun m name f _ hm => hm.alloc (by simp [Object.bare])
  · exact fun m name v hm => hm.put _ _ _
  · refine ⟨fun id parent hparent => ?_, Nat.zero_lt_one, fun id f home hkind => ?_⟩
    · have hroot : (ScopeTree.fresh.scope id).parent = none := by
        cases id <;> rfl
      rw [Machine.bare, hroot] at hparent
      cases hparent
    · simp only [Machine.bare, Heap.object, Array.getD_eq_getD_getElem?, List.getElem?_toArray,
        List.getElem?_map] at hkind
      cases hproto : Proto.all[id]? <;> simp [hproto, Object.bare, default] at hkind

end ScriptEngine
