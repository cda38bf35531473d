import ScriptEngine.Proofs.Evaluation.Grounding

/-!
# A scope in between

A machine and the same machine with one more scope in the chain of some scopes and closures. The
extra scope binds nothing, holds no `var` and no receiver, so whatever is looked for from below it
is found where it is found without it. Runs on the two machines go in tandem as long as they declare
nothing in the extra scope.
-/

namespace ScriptEngine

open Eval

/-- The number that a scope has when there is one more scope, which has the number `k`. -/
def ScopeId.past (k i : Nat) : Nat :=
  if i < k then i else i + 1

/-- A scope of the smaller tree and one of the larger that see the same: the extra scope `k` sees
what its parent sees. -/
inductive ScopeId.Sees (k parent : ScopeId) : ScopeId → ScopeId → Prop where
  | past (i : ScopeId) : Sees k parent i (ScopeId.past k i)
  | extra : Sees k parent parent k

structure Scope.Matches (k parent : ScopeId) (s s' : Scope) : Prop where
  bindings : s'.bindings = s.bindings
  holdsVars : s'.holdsVars = s.holdsVars
  receiver : s'.receiver = s.receiver
  parents : Option.Rel (ScopeId.Sees k parent) s.parent s'.parent

theorem Scope.Matches.parent_cases {k parent : ScopeId} {s s' : Scope} (h : s.Matches k parent s') :
    (s.parent = none ∧ s'.parent = none) ∨
      ∃ q q', s.parent = some q ∧ s'.parent = some q' ∧ ScopeId.Sees k parent q q' := by
  have hparents := h.parents
  generalize s.parent = p, s'.parent = p' at hparents
  cases hparents with
  | none => exact .inl ⟨rfl, rfl⟩
  | some hsees => exact .inr ⟨_, _, rfl, rfl, hsees⟩

theorem Scope.Matches.isNone {k parent : ScopeId} {s s' : Scope} (h : s.Matches k parent s') :
    s'.parent.isNone = s.parent.isNone := by
  obtain ⟨hq, hq'⟩ | ⟨q, q', hq, hq', -⟩ := h.parent_cases
  · rw [hq, hq']
  · rw [hq, hq']
    rfl

theorem Scope.Matches.bind {k parent : ScopeId} {s s' : Scope} (h : s.Matches k parent s')
    (name : String) (b : Binding) : (s.bind name b).Matches k parent (s'.bind name b) where
  bindings := congrArg (·.insert name b) h.bindings
  holdsVars := h.holdsVars
  receiver := h.receiver
  parents := h.parents

namespace ScopeTree

variable {k parent : ScopeId}

theorem past_inj {k i j : Nat} : ScopeId.past k i = ScopeId.past k j ↔ i = j := by
  unfold ScopeId.past
  constructor
  · intro h
    split at h <;> split at h <;> omega
  · rintro rfl
    rfl

theorem past_of_lt {i : ScopeId} (hi : i < k) : ScopeId.past k i = i :=
  if_pos hi

theorem past_of_le {i : ScopeId} (hi : k ≤ i) : ScopeId.past k i = i + 1 :=
  if_neg (Nat.not_lt.mpr hi)

theorem past_lt_iff {k n i : Nat} (hn : k ≤ n) : ScopeId.past k i < n + 1 ↔ i < n := by
  unfold ScopeId.past
  split <;> omega

theorem past_ne {k : Nat} (i : Nat) : ScopeId.past k i ≠ k := by
  unfold ScopeId.past
  split <;> omega

/-- The second tree has one more scope, a block with the number `k`. -/
structure Widens (k parent : ScopeId) (t t' : ScopeTree) : Prop where
  ordered : t.Ordered
  ordered' : t'.Ordered
  parent_lt : parent < k
  le_size : k ≤ t.size
  size : t'.size = t.size + 1
  extra : t'.scope k = .block parent
  scope (i : ScopeId) : (t.scope i).Matches k parent (t'.scope (ScopeId.past k i))

namespace Widens

variable {t t' : ScopeTree} (h : t.Widens k parent t')

include h

theorem nearest? {p : Scope → Bool} (hp : ∀ s s' : Scope, s.Matches k parent s' → p s' = p s)
    (hblock : p (.block parent) = false) {i i' : ScopeId} (hi : ScopeId.Sees k parent i i') :
    Option.Rel (fun j j' => j' = ScopeId.past k j) (t.nearest? i p) (t'.nearest? i' p) := by
  have hextra : t'.nearest? k p = t'.nearest? (ScopeId.past k parent) p := by
    rw [past_of_lt h.parent_lt]
    exact nearest?_of_not h.ordered' (by rw [h.extra]; rfl) (by rw [h.extra, hblock])
  have hpast (i : ScopeId) :
      Option.Rel (fun j j' => j' = ScopeId.past k j) (t.nearest? i p)
        (t'.nearest? (ScopeId.past k i) p) := by
    -- parents are older
    induction i using Nat.strongRecOn with
    | ind i ih =>
      have hsame := hp _ _ (h.scope i)
      cases hpos : p (t.scope i) with
      | true =>
        rw [nearest?_of_pos hpos, nearest?_of_pos (hsame.trans hpos)]
        exact .some rfl
      | false =>
        obtain ⟨hq, hq'⟩ | ⟨q, q', hq, hq', hsees⟩ := (h.scope i).parent_cases
        · simp only [ScopeTree.nearest?, climb, hsame, hpos, hq, hq']
          exact .none
        · have hlt := h.ordered i q hq
          rw [nearest?_of_not h.ordered hq hpos, nearest?_of_not h.ordered' hq' (hsame.trans hpos)]
          cases hsees with
          | past => exact ih q hlt
          | extra =>
            rw [hextra]
            exact ih parent hlt
  cases hi with
  | past => exact hpast i
  | extra =>
    rw [hextra]
    exact hpast parent

theorem getLocal? (i : ScopeId) (name : String) :
    t'.getLocal? (ScopeId.past k i) name = t.getLocal? i name := by
  rw [ScopeTree.getLocal?, (h.scope i).bindings, ScopeTree.getLocal?]

theorem holder? {i i' : ScopeId} (hi : ScopeId.Sees k parent i i') (name : String) :
    Option.Rel (fun j j' => j' = ScopeId.past k j) (t.holder? i name) (t'.holder? i' name) := by
  refine h.nearest? (fun s s' hs => ?_) ?_ hi
  · simp only [Scope.has, hs.bindings]
  · simp [Scope.has, Scope.block]

theorem receiver {i i' : ScopeId} (hi : ScopeId.Sees k parent i i') :
    t'.receiver i' = t.receiver i := by
  have hholder := h.nearest? (p := (·.receiver.isSome))
    (fun s s' hs => by simp only [hs.receiver]) rfl hi
  simp only [ScopeTree.receiver]
  generalize t.nearest? i _ = found, t'.nearest? i' _ = found' at hholder
  cases hholder with
  | none => rfl
  | some hj =>
    subst hj
    simp only [Option.bind_some, (h.scope _).receiver]

theorem rootOf {i i' : ScopeId} (hi : ScopeId.Sees k parent i i') :
    t'.rootOf i' = ScopeId.past k (t.rootOf i) := by
  have hroot := h.nearest? (p := (·.parent.isNone)) (fun s s' hs => hs.isNone) rfl hi
  obtain ⟨root, hfound, -⟩ := exists_root h.ordered i
  rw [ScopeTree.rootOf, ScopeTree.rootOf]
  rw [hfound] at hroot ⊢
  generalize t'.nearest? i' _ = found' at hroot ⊢
  cases hroot with
  | some hj => exact hj

theorem varScope (hvars : (t.nearest? parent (·.holdsVars)).isSome) {i i' : ScopeId}
    (hi : ScopeId.Sees k parent i i') : t'.varScope i' = ScopeId.past k (t.varScope i) := by
  have hvar := h.nearest? (p := (·.holdsVars)) (fun s s' hs => hs.holdsVars) rfl hi
  rw [ScopeTree.varScope, ScopeTree.varScope]
  cases hi with
  | past =>
    generalize t.nearest? i _ = found, t'.nearest? _ _ = found' at hvar
    cases hvar with
    | none => rfl
    | some hj => exact hj
  | extra =>
    -- with no such scope, the parent and the extra scope would each take `var` names themselves
    obtain ⟨s, hfound⟩ := Option.isSome_iff_exists.mp hvars
    rw [hfound] at hvar ⊢
    generalize t'.nearest? k _ = found' at hvar ⊢
    cases hvar with
    | some hj => exact hj

theorem put (i : ScopeId) (name : String) (b : Binding) :
    (t.put i name b).Widens k parent (t'.put (ScopeId.past k i) name b) where
  ordered := h.ordered.put i name b
  ordered' := h.ordered'.put _ name b
  parent_lt := h.parent_lt
  le_size := by
    rw [size_put]
    exact h.le_size
  size := by
    rw [size_put, size_put]
    exact h.size
  extra := by
    rw [ScopeTree.put, scope_modify, if_neg fun heq => past_ne i heq.1.symm]
    exact h.extra
  scope j := by
    simp only [ScopeTree.put, scope_modify, past_inj, h.size, past_lt_iff h.le_size]
    split
    · exact (h.scope j).bind name b
    · exact h.scope j

theorem add {i i' : ScopeId} (hi : ScopeId.Sees k parent i i') (hlt : i < t.size)
    (holdsVars : Bool) (receiver : Option Value) :
    (t.add ⟨∅, some i, holdsVars, receiver⟩).Widens k parent
      (t'.add ⟨∅, some i', holdsVars, receiver⟩) where
  ordered := h.ordered.add <| by
    rintro _ ⟨⟩
    exact hlt
  ordered' := h.ordered'.add <| by
    rintro _ ⟨⟩
    rw [h.size]
    cases hi with
    | past => exact (past_lt_iff h.le_size).mpr hlt
    | extra => exact Nat.lt_succ_of_le h.le_size
  parent_lt := h.parent_lt
  le_size := Nat.le_trans h.le_size (by simp [ScopeTree.add])
  size := by simp [ScopeTree.add, h.size]
  extra := by
    have hlt : k < t'.size := by
      rw [h.size]
      exact Nat.lt_succ_of_le h.le_size
    rw [scope_add, if_neg (Nat.ne_of_lt hlt)]
    exact h.extra
  scope j := by
    have hnew : ScopeId.past k j = t'.size ↔ j = t.size := by
      rw [h.size, ← past_of_le h.le_size, past_inj]
    simp only [scope_add, hnew]
    split
    · exact ⟨rfl, rfl, rfl, .some hi⟩
    · exact h.scope j

theorem scope_of_lt {i : ScopeId} (hi : i < k) : t'.scope i = t.scope i := by
  have hscope := h.scope i
  rw [past_of_lt hi] at hscope
  have hparent : (t'.scope i).parent = (t.scope i).parent := by
    obtain ⟨hq, hq'⟩ | ⟨q, q', hq, hq', hsees⟩ := hscope.parent_cases
    · rw [hq, hq']
    · have hlt := h.ordered i q hq
      have hlt' := h.ordered' i q' hq'
      cases hsees with
      | past => rw [hq, hq', past_of_lt (Nat.lt_trans hlt hi)]
      -- the extra scope would be older than a scope below it
      | extra => exact absurd hi (Nat.not_lt.mpr (Nat.le_of_lt hlt'))
  have hbindings := hscope.bindings
  have hholdsVars := hscope.holdsVars
  have hreceiver := hscope.receiver
  generalize t.scope i = s, t'.scope i = s' at hbindings hholdsVars hreceiver hparent
  cases s
  cases s'
  subst hbindings hholdsVars hreceiver hparent
  rfl

end Widens

theorem widens_add {t : ScopeTree} (ht : t.Ordered) {parent : ScopeId} (hparent : parent < t.size) :
    t.Widens t.size parent (t.add (.block parent)) where
  ordered := ht
  ordered' := ht.add <| by
    rintro _ ⟨⟩
    exact hparent
  parent_lt := hparent
  le_size := Nat.le_refl _
  size := by simp [ScopeTree.add]
  extra := by rw [scope_add, if_pos rfl]
  scope i := by
    by_cases hi : i < t.size
    · rw [past_of_lt hi, scope_add, if_neg (Nat.ne_of_lt hi)]
      refine ⟨rfl, rfl, rfl, ?_⟩
      cases hq : (t.scope i).parent with
      | none => exact .none
      | some q =>
        have hsees : ScopeId.Sees t.size parent q _ := .past q
        rw [past_of_lt (Nat.lt_trans (ht i q hq) hi)] at hsees
        exact .some hsees
    · -- numbers beyond the tree name the default scope, on both sides
      have hle := Nat.le_of_not_lt hi
      have hnone : t.scope i = default := by simp [ScopeTree.scope, hle]
      have hnone' : (t.add (.block parent)).scope (i + 1) = default := by
        simp [ScopeTree.scope, ScopeTree.add, Nat.not_lt.mpr hle]
      rw [past_of_le hle, hnone, hnone']
      exact ⟨rfl, rfl, rfl, .none⟩

end ScopeTree

structure Machine.Widens (k parent : ScopeId) (n : Nat) (m m' : Machine) : Prop where
  alike : m.Lookalike m'
  scopes : m.scopes.Widens k parent m'.scopes
  vars : (m.scopes.nearest? parent (·.holdsVars)).isSome
  homes : ∀ id f s, (m.heap.object id).kind = .closure f s → s < m.scopes.size ∧
    ∃ s', (m'.heap.object id).kind = .closure f s' ∧ ScopeId.Sees k parent s s'
  le_size : n ≤ m.heap.size
  older : ∀ id < n, m'.heap.object id = m.heap.object id
  current : ScopeId.Sees k parent m.current m'.current
  current_lt : m.current < m.scopes.size

namespace Machine.Widens

variable {k parent : ScopeId} {n : Nat} {m m' : Machine} (h : m.Widens k parent n m')

include h

theorem enter {i i' : ScopeId} (hi : ScopeId.Sees k parent i i') (hlt : i < m.scopes.size) :
    Widens k parent n { m with current := i } { m' with current := i' } :=
  ⟨h.alike.rescope .., h.scopes, h.vars, h.homes, h.le_size, h.older, hi, hlt⟩

theorem put (i : ScopeId) (name : String) (b : Binding) :
    Widens k parent n { m with scopes := m.scopes.put i name b }
      { m' with scopes := m'.scopes.put (ScopeId.past k i) name b } where
  alike := h.alike.rescope ..
  scopes := h.scopes.put i name b
  vars := by
    rw [(ScopeTree.grows_put i name b).nearest?_holdsVars h.scopes.ordered
      (Nat.lt_of_lt_of_le h.scopes.parent_lt h.scopes.le_size)]
    exact h.vars
  homes id f s hkind := by
    rw [ScopeTree.size_put]
    exact h.homes id f s hkind
  le_size := h.le_size
  older := h.older
  current := h.current
  current_lt := by
    rw [ScopeTree.size_put]
    exact h.current_lt

theorem add {i i' : ScopeId} (hi : ScopeId.Sees k parent i i') (hlt : i < m.scopes.size)
    (holdsVars : Bool) (receiver : Option Value) :
    Widens k parent n { m with scopes := m.scopes.add ⟨∅, some i, holdsVars, receiver⟩ }
      { m' with scopes := m'.scopes.add ⟨∅, some i', holdsVars, receiver⟩ } := by
  have hgrows := ScopeTree.grows_add (t := m.scopes) ⟨∅, some i, holdsVars, receiver⟩
  refine ⟨?_, h.scopes.add hi hlt holdsVars receiver, ?_, ?_, h.le_size, h.older, h.current, ?_⟩
  · exact h.alike.rescope ..
  · rw [hgrows.nearest?_holdsVars h.scopes.ordered
      (Nat.lt_of_lt_of_le h.scopes.parent_lt h.scopes.le_size)]
    exact h.vars
  · intro id f s hkind
    obtain ⟨hs, hs'⟩ := h.homes id f s hkind
    exact ⟨Nat.lt_of_lt_of_le hs hgrows.size_le, hs'⟩
  · exact Nat.lt_of_lt_of_le h.current_lt hgrows.size_le

theorem alloc {o o' : Object} (ho : o.Lookalike o')
    (hhome : ∀ f s, o.kind = .closure f s → s < m.scopes.size ∧
      ∃ s', o'.kind = .closure f s' ∧ ScopeId.Sees k parent s s') :
    Widens k parent n { m with heap := m.heap.alloc o } { m' with heap := m'.heap.alloc o' } := by
  have hsize := h.alike.size
  refine ⟨⟨fun id => ?_, ?_, h.alike.frames, h.alike.joining, h.alike.maxCallDepth⟩, h.scopes,
    h.vars, fun id f s hkind => ?_, ?_, fun id hid => ?_, h.current, h.current_lt⟩
  · rw [Heap.object_alloc, Heap.object_alloc, hsize]
    split
    · exact ho
    · exact h.alike.heap id
  · simp [Heap.alloc, hsize]
  · rw [Heap.object_alloc] at hkind
    rw [Heap.object_alloc, hsize]
    split at hkind
    next hid =>
      rw [if_pos hid]
      exact hhome f s hkind
    next hid =>
      rw [if_neg hid]
      exact h.homes id f s hkind
  · exact Nat.le_trans h.le_size (by simp [Heap.alloc])
  · have hne : id ≠ m.heap.size := Nat.ne_of_lt (Nat.lt_of_lt_of_le hid h.le_size)
    rw [Heap.object_alloc, Heap.object_alloc, hsize, if_neg hne, if_neg hne]
    exact h.older id hid

theorem edit (id : ObjectId) {change : Object → Object}
    (hsimilar : ∀ o : Object, o.kind.Similar (change o).kind)
    (hchange : ∀ f s s' p ps,
      (change ⟨.closure f s, p, ps⟩).Lookalike (change ⟨.closure f s', p, ps⟩)) :
    Widens k parent n { m with heap := m.heap.modify id change }
      { m' with heap := m'.heap.modify id change } := by
  refine ⟨⟨fun i => ?_, ?_, h.alike.frames, h.alike.joining, h.alike.maxCallDepth⟩, h.scopes,
    h.vars, fun i f s hkind => ?_, ?_, fun i hi => ?_, h.current, h.current_lt⟩
  · rw [Heap.object_modify_eq, Heap.object_modify_eq, h.alike.size]
    split
    · exact (h.alike.heap i).change hchange
    · exact h.alike.heap i
  · simp [h.alike.size]
  · obtain ⟨hs, s', hs', hsees⟩ :=
      h.homes i f s ((m.heap.similar_modify hsimilar id i).closure hkind)
    exact ⟨hs, s', (m'.heap.similar_modify hsimilar id i).symm.closure hs', hsees⟩
  · simpa using h.le_size
  · rw [Heap.object_modify_eq, Heap.object_modify_eq, h.alike.size, h.older i hi]

end Machine.Widens

/-- Runs on a machine and on one with an extra scope. A world is the number of scopes that there
are; nothing is said about values. -/
def Tandem.widening (k parent : ScopeId) (n : Nat) : Tandem where
  World := Nat
  le := (· ≤ ·)
  related w m m' := w = m.scopes.size ∧ m.Widens k parent n m'
  sound _ _ := True
  scope w i i' := i < w ∧ ScopeId.Sees k parent i i'
  own w i i' := i < w ∧ i' = ScopeId.past k i
  plain _ _ := True
  admits _ := True

namespace Tandem

variable {k parent : ScopeId} {n : Nat}

theorem widening_lawful (k parent : ScopeId) (n : Nat) : (widening k parent n).Lawful where
  refl := Nat.le_refl
  trans := Nat.le_trans
  sound_mono _ _ := trivial
  scope_mono h hi := ⟨Nat.lt_of_lt_of_le hi.1 h, hi.2⟩
  own_mono h hi := ⟨Nat.lt_of_lt_of_le hi.1 h, hi.2⟩
  plain_mono _ _ := trivial
  scope_of_own := by
    rintro w i _ ⟨hlt, rfl⟩
    exact ⟨hlt, .past i⟩
  primitive _ := trivial
  admits_of_le _ _ := trivial
  admits_max := trivial
  alike hm := hm.2.alike
  current hm := ⟨hm.1 ▸ hm.2.current_lt, hm.2.current⟩
  proto _ _ := trivial
  get _ _ _ := trivial
  elements _ _ _ _ := ⟨trivial, fun _ _ => trivial⟩
  closure {w m m'} hm id f s hkind := by
    obtain ⟨hs, s', hkind', hsees⟩ := hm.2.homes id f s hkind
    exact ⟨fun _ _ => trivial, s', hkind', hm.1 ▸ hs, hsees⟩
  host _ _ _ _ _ _ := trivial
  bound _ _ _ _ _ := trivial
  getLocal? := by
    rintro w m m' hm i _ ⟨-, rfl⟩ name
    exact hm.2.scopes.getLocal? i name
  holder? {w m m'} hm i i' hi name := by
    have hholder := hm.2.scopes.holder? hi.2 name
    cases hfound : m.scopes.holder? i name with
    | none =>
      rw [hfound] at hholder
      generalize m'.scopes.holder? i' name = found' at hholder
      cases hholder
      exact .none
    | some j =>
      have hle := (ScopeTree.inside_of_climb hm.2.scopes.ordered hfound).le
      rw [hfound] at hholder
      generalize m'.scopes.holder? i' name = found' at hholder
      cases hholder with
      | some hj => exact .some ⟨Nat.lt_of_le_of_lt hle hi.1, hj⟩
  receiver hm i i' hi := ⟨hm.2.scopes.receiver hi.2, trivial⟩
  varScope {w m m'} hm i i' hi := by
    have hle := (ScopeTree.inside_varScope hm.2.scopes.ordered i).le
    exact ⟨Nat.lt_of_le_of_lt hle hi.1, hm.2.scopes.varScope hm.2.vars hi.2⟩
  rootOf {w m m'} hm i i' hi := by
    obtain ⟨root, hfound, -⟩ := ScopeTree.exists_root hm.2.scopes.ordered i
    have hle : m.scopes.rootOf i ≤ i := by
      rw [ScopeTree.rootOf, hfound]
      exact (ScopeTree.inside_of_climb hm.2.scopes.ordered hfound).le
    rw [hm.2.scopes.rootOf hi.2]
    exact ⟨Nat.lt_of_le_of_lt hle hi.1, .past _⟩
  enter hm i i' hi := ⟨hm.1, hm.2.enter hi.2 (hm.1 ▸ hi.1)⟩
  frames hm change :=
    ⟨hm.1, ⟨hm.2.alike.heap, hm.2.alike.size, congrArg change hm.2.alike.frames,
      hm.2.alike.joining, hm.2.alike.maxCallDepth⟩, hm.2.scopes, hm.2.vars, hm.2.homes,
      hm.2.le_size, hm.2.older, hm.2.current, hm.2.current_lt⟩
  joining hm change :=
    ⟨hm.1, ⟨hm.2.alike.heap, hm.2.alike.size, hm.2.alike.frames,
      congrArg change hm.2.alike.joining, hm.2.alike.maxCallDepth⟩, hm.2.scopes, hm.2.vars,
      hm.2.homes, hm.2.le_size, hm.2.older, hm.2.current, hm.2.current_lt⟩
  put := by
    rintro w m m' hm i _ ⟨-, rfl⟩ name b -
    exact ⟨hm.1.trans (ScopeTree.size_put ..).symm, hm.2.put i name b⟩
  add := by
    rintro _ m m' ⟨rfl, hm⟩ i i' ⟨hlt, hi⟩ holdsVars receiver -
    have hsize : (m.scopes.add ⟨∅, some i, holdsVars, receiver⟩).size = m.scopes.size + 1 :=
      Array.size_push ..
    refine ⟨m.scopes.size + 1, Nat.le_succ _, ⟨Nat.lt_succ_self _, ?_⟩, hsize.symm, ?_⟩
    · rw [hm.scopes.size, ScopeTree.past_of_le hm.scopes.le_size]
    · exact hm.add hi hlt holdsVars receiver
  fresh {w m m'} hm o o' ho := by
    refine ⟨w, Nat.le_refl w, trivial, fun _ => trivial, hm.1, hm.2.alloc ?_ ?_⟩
    · cases ho with
      | plain | array | error => exact .refl _
      | closure => exact .closure _ _ _ _ _
    · intro f s hkind
      cases ho with
      | plain | array => cases hkind
      | error name message ho =>
        subst ho
        cases hkind
      | closure hf hs hp =>
        cases hkind
        exact ⟨hm.1 ▸ hs.1, _, rfl, hs.2⟩
  edit hm id change hchange := ⟨hm.1, hm.2.edit id hchange.similar hchange.alike⟩

end Tandem

theorem Machine.widens_addBlock {m : Machine} (hm : m.Grounded) :
    m.Widens m.scopes.size m.current m.heap.size
      { m with scopes := m.scopes.add (.block m.current), current := m.scopes.size } where
  alike := ⟨fun _ => .refl _, rfl, rfl, rfl, rfl⟩
  scopes := ScopeTree.widens_add hm.ordered hm.current
  vars := by
    obtain ⟨s, hinside, hholds⟩ := hm.vars
    exact hinside.climb_isSome hholds (Nat.lt_succ_self _)
  homes id f s hkind := by
    have hs := hm.homes id f s hkind
    have hsees : ScopeId.Sees m.scopes.size m.current s _ := .past s
    rw [ScopeTree.past_of_lt hs] at hsees
    exact ⟨hs, s, hkind, hsees⟩
  le_size := Nat.le_refl _
  older _ _ := rfl
  current := .extra
  current_lt := hm.current

namespace Eval

theorem loops_in_tandem {S : Tandem} (L : S.Lawful)
    {w : S.World} {condition condition' : Eval Value}
    {body body' : Eval Completion} (hcondition : ∀ w₁, S.Runs w₁ S.sound condition condition')
    (hbody : ∀ w₁, S.Runs w₁ S.completion body body') (n : Nat) :
    S.Runs w S.completion (whileLoop condition body n)
      (forLoop (some condition') none body' n) := by
  induction n generalizing w with
  | zero => exact L.outOfFuel
  | succ n ih =>
    simp only [whileLoop, forLoop, holds, bind_assoc, pure_bind]
    refine L.bind (hcondition w) fun w₁ v _ _ => ?_
    split
    · refine L.bind (hbody w₁) fun w₂ c _ hcompletion => ?_
      cases c with
      | leave => exact L.undefined
      | giveBack => exact L.pure hcompletion
      | normal | skip => exact ih
    · exact L.undefined

end Eval

/-- Two machines that come from the same machine `m`, the second with one more scope, which is empty
and below the current scope of `m`: whatever was there before is the same, and what is new is the
same but for its place below the extra scope. -/
structure Machine.SameSince (m n n' : Machine) : Prop where
  scopes : ∀ i < m.scopes.size, n'.scopes.scope i = n.scopes.scope i
  objects : ∀ id < m.heap.size, n'.heap.object id = n.heap.object id
  current : n.current = m.current
  current' : n'.current = m.current
  widens : n.Widens m.scopes.size m.current m.heap.size n'

theorem Machine.Widens.sameSince {m n n' : Machine} (hm : m.WellScoped)
    (h : n.Widens m.scopes.size m.current m.heap.size n') (hcurrent : n.current = m.current) :
    m.SameSince n { n' with current := m.current } := by
  refine ⟨fun i hi => h.scopes.scope_of_lt hi, h.older, hcurrent, rfl, ?_⟩
  have hsees : ScopeId.Sees m.scopes.size m.current m.current _ := .past m.current
  rw [ScopeTree.past_of_lt hm.current, ← hcurrent] at hsees
  exact h.enter (hcurrent ▸ hsees) h.current_lt

namespace Eval

inductive EndTogether (m : Machine) {α : Type} :
    EStateM.Result Failure Machine α → EStateM.Result Failure Machine α → Prop where
  | ok {n n' : Machine} (a : α) (h : m.SameSince n n') : EndTogether m (.ok a n) (.ok a n')
  | error {n n' : Machine} (e : Failure) (h : m.SameSince n n') :
      EndTogether m (.error e n) (.error e n')

/-- A `while` with a block and the `for` with the same condition and block end alike, with any fuel.
So both run out of fuel, or they complete alike, or they fail alike. -/
theorem while_agrees_with_for {m : Machine} (hm : m.Grounded) (o o' o'' : Origin)
    (condition : Expr) (body : Block) (fuel rounds : Nat) :
    EndTogether m ((Stmt.whileLoop o condition (.block o'' body)).run (invoke fuel) rounds m)
      ((Stmt.forLoop o' none (some condition) none (.block o'' body)).run (invoke fuel)
        rounds m) := by
  have L := Tandem.widening_lawful m.scopes.size m.current m.heap.size
  have hc := L.calls fuel
  have hloops := loops_in_tandem L (w := m.scopes.size)
    (L.eval hc condition fun _ _ => trivial)
    (fun w => L.inBlock fun w₁ _ => L.runBlock hc rounds body (fun _ _ => trivial) w₁) rounds
  have hends := hloops m _ ⟨rfl, Machine.widens_addBlock hm⟩
  -- the `for` starts in the extra scope, and leaves it however the loop ends
  show EndTogether m (whileLoop (condition.eval (invoke fuel))
      (inBlock (body.runBody (invoke fuel) rounds)) rounds m)
    (always (forLoop (some (condition.eval (invoke fuel))) none
      (inBlock (body.runBody (invoke fuel) rounds)) rounds)
        (fun n => { n with current := m.current })
      { m with scopes := m.scopes.add (.block m.current), current := m.scopes.size })
  unfold always
  generalize whileLoop _ _ rounds m = r, forLoop _ _ _ rounds _ = r' at hends ⊢
  cases hends with
  | ok h _ => exact .ok _ (h.related.2.sameSince hm.toWellScoped h.current)
  | error h _ => exact .error _ (h.related.2.sameSince hm.toWellScoped h.current)

/-- A loop whose body makes a closure and ends the loop, at the beginning of a session. -/
theorem while_agrees_with_for_closure :
    let m := Machine.start false none
    let y : Ident := ⟨"y", default⟩
    let closure : Expr := .function default (.mk none [] (.mk default []))
    let body : Block := .mk default
      [.expression default (.assign default (.name y) closure), .breakLoop default]
    let whileTrue : Stmt := .whileLoop default (.bool default true) (.block default body)
    let forTrue : Stmt :=
      .forLoop default none (some (.bool default true)) none (.block default body)
    EndTogether m (whileTrue.run (invoke 2) 2 m) (forTrue.run (invoke 2) 2 m) ∧
      (final (whileTrue.run (invoke 2) 2 m)).heap.size = m.heap.size + 2 := by
  intro m y closure body whileTrue forTrue
  have hm : m.Grounded := (Machine.InSession.start false none).grounded
  exact ⟨while_agrees_with_for hm _ _ _ _ _ _ _, by decide +kernel⟩

end Eval

end ScriptEngine
