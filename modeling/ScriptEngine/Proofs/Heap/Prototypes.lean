import ScriptEngine.Heap.Basic

/-!
# Prototype chains

Where every prototype is an older object, the prototypes of an object come to an end, and a look-up
goes through them in order. What it finds is decided by the objects on the chain alone.
-/

namespace ScriptEngine.Heap

def Ordered (h : Heap) : Prop :=
  ∀ id p, (h.object id).prototype = some p → p < id

/-- An object and its prototypes in order, up to one without a prototype. -/
inductive Chain (h : Heap) : ObjectId → List ObjectId → Prop where
  | last {id : ObjectId} (hnone : (h.object id).prototype = none) : Chain h id [id]
  | link {id p : ObjectId} {chain : List ObjectId} (hsome : (h.object id).prototype = some p)
      (hp : Chain h p chain) : Chain h id (id :: chain)

/-- A look-up goes on behind an object that does not have the key, unless it is an array and the key
is an index. -/
def Passes (h : Heap) (key : String) (id : ObjectId) : Prop :=
  (h.object id).getOwn? key = none ∧
    ¬((h.object id).isArray = true ∧ (arrayIndex? key).isSome = true)

/-- What is found along a chain: the own value of the nearest object that has the key, and undefined
if an array is missing the index or no object has the key. -/
inductive Finds (h : Heap) (key : String) (chain : List ObjectId) : Value → Prop where
  | own {before after : List ObjectId} {id : ObjectId} {v : Value}
      (hchain : chain = before ++ id :: after) (hbefore : ∀ i ∈ before, h.Passes key i)
      (hv : (h.object id).getOwn? key = some v) : Finds h key chain v
  | element {before after : List ObjectId} {id : ObjectId} (hchain : chain = before ++ id :: after)
      (hbefore : ∀ i ∈ before, h.Passes key i) (hnone : (h.object id).getOwn? key = none)
      (harray : (h.object id).isArray = true) (hindex : (arrayIndex? key).isSome = true) :
      Finds h key chain .undefined
  | nowhere (hchain : ∀ i ∈ chain, h.Passes key i) : Finds h key chain .undefined

variable {h h' : Heap} {id : ObjectId} {chain : List ObjectId} {key : String}

theorem Finds.behind {v : Value} (hfinds : h.Finds key chain v) (hid : h.Passes key id) :
    h.Finds key (id :: chain) v := by
  have hcons {before : List ObjectId} (hbefore : ∀ i ∈ before, h.Passes key i) :
      ∀ i ∈ id :: before, h.Passes key i := List.forall_mem_cons.mpr ⟨hid, hbefore⟩
  cases hfinds with
  | own hchain hbefore hv => exact .own (congrArg (id :: ·) hchain) (hcons hbefore) hv
  | element hchain hbefore hnone harray hindex =>
    exact .element (congrArg (id :: ·) hchain) (hcons hbefore) hnone harray hindex
  | nowhere hchain => exact .nowhere (hcons hchain)

namespace Chain

theorem unique {chain' : List ObjectId} (hc : h.Chain id chain) (hc' : h.Chain id chain') :
    chain' = chain := by
  induction hc generalizing chain' with
  | last hnone =>
    cases hc' with
    | last => rfl
    | link hsome => rw [hnone] at hsome; cases hsome
  | link hsome _ ih =>
    cases hc' with
    | last hnone => rw [hsome] at hnone; cases hnone
    | link hsome' hp' =>
      rw [hsome] at hsome'
      cases hsome'
      rw [ih hp']

theorem le (hh : h.Ordered) (hc : h.Chain id chain) : ∀ i ∈ chain, i ≤ id := by
  induction hc with
  | last => simp
  | link hsome _ ih =>
    have hlt := hh _ _ hsome
    refine List.forall_mem_cons.mpr ⟨Nat.le_refl _, fun i hi => ?_⟩
    exact Nat.le_trans (ih i hi) (Nat.le_of_lt hlt)

theorem nodup (hh : h.Ordered) (hc : h.Chain id chain) : chain.Nodup := by
  induction hc with
  | last => exact List.nodup_cons.mpr ⟨List.not_mem_nil, List.nodup_nil⟩
  | link hsome hp ih =>
    refine List.nodup_cons.mpr ⟨fun hmem => ?_, ih⟩
    exact Nat.not_le_of_lt (hh _ _ hsome) (hp.le hh _ hmem)

theorem length_le (hh : h.Ordered) (hc : h.Chain id chain) : chain.length ≤ id + 1 := by
  induction hc with
  | last => exact Nat.le_add_left 1 _
  | link hsome _ ih =>
    rw [List.length_cons]
    exact Nat.succ_le_succ (Nat.le_trans ih (hh _ _ hsome))

theorem finds_getWithin (hc : h.Chain id chain) {n : Nat} (hn : chain.length ≤ n) :
    h.Finds key chain (h.getWithin key n id) := by
  induction hc generalizing n with
  | @last id hnone =>
    obtain ⟨n, rfl⟩ : ∃ k, n = k + 1 := ⟨n - 1, by rw [List.length_singleton] at hn; omega⟩
    simp only [getWithin, hnone]
    split
    next v hv => exact .own (List.nil_append _).symm nofun hv
    next hown =>
      rw [ite_self]
      by_cases hindex : (h.object id).isArray = true ∧ (arrayIndex? key).isSome = true
      · exact .element (List.nil_append _).symm nofun hown hindex.1 hindex.2
      · exact .nowhere (List.forall_mem_singleton.mpr ⟨hown, hindex⟩)
  | @link id p chain hsome hp ih =>
    obtain ⟨n, rfl⟩ : ∃ k, n = k + 1 := ⟨n - 1, by rw [List.length_cons] at hn; omega⟩
    simp only [getWithin, hsome]
    split
    next v hv => exact .own (List.nil_append _).symm nofun hv
    next hown =>
      by_cases hindex : (h.object id).isArray = true ∧ (arrayIndex? key).isSome = true
      · rw [if_pos (by simpa using hindex)]
        exact .element (List.nil_append _).symm nofun hown hindex.1 hindex.2
      · rw [if_neg (by simpa using hindex)]
        exact (ih (Nat.le_of_succ_le_succ hn)).behind ⟨hown, hindex⟩

theorem finds_get (hh : h.Ordered) (hc : h.Chain id chain) (key : String) :
    h.Finds key chain (h.get id key) :=
  hc.finds_getWithin (hc.length_le hh)

theorem congr (hc : h.Chain id chain)
    (hsame : ∀ i ∈ chain, (h'.object i).prototype = (h.object i).prototype) :
    h'.Chain id chain := by
  induction hc with
  | last hnone => exact .last ((hsame _ (List.mem_singleton_self _)).trans hnone)
  | link hsome _ ih =>
    obtain ⟨hid, hchain⟩ := List.forall_mem_cons.mp hsame
    exact .link (hid.trans hsome) (ih hchain)

theorem getWithin_congr (hc : h.Chain id chain) (hsame : ∀ i ∈ chain, h'.object i = h.object i)
    (n : Nat) : h'.getWithin key n id = h.getWithin key n id := by
  induction hc generalizing n with
  | last hnone =>
    cases n with
    | zero => rfl
    | succ n => simp only [getWithin, hsame _ (List.mem_singleton_self _), hnone]
  | link hsome _ ih =>
    obtain ⟨hid, hchain⟩ := List.forall_mem_cons.mp hsame
    cases n with
    | zero => rfl
    | succ n => simp only [getWithin, hid, hsome, ih hchain n]

theorem get_congr (hc : h.Chain id chain) (hsame : ∀ i ∈ chain, h'.object i = h.object i)
    (key : String) : h'.get id key = h.get id key :=
  hc.getWithin_congr hsame (id + 1)

end Chain

theorem Ordered.exists_chain (hh : h.Ordered) (id : ObjectId) : ∃ chain, h.Chain id chain := by
  induction id using Nat.strongRecOn with
  | _ id ih =>
    cases hp : (h.object id).prototype with
    | none => exact ⟨[id], .last hp⟩
    | some p =>
      obtain ⟨chain, hchain⟩ := ih p (hh id p hp)
      exact ⟨id :: chain, .link hp hchain⟩

theorem Ordered.wellFounded (hh : h.Ordered) :
    WellFounded fun p id => (h.object id).prototype = some p :=
  Subrelation.wf (fun {p id} hp => hh id p hp) Nat.lt_wfRel.wf

theorem get_index_of_isArray (harray : (h.object id).isArray = true)
    (hindex : (arrayIndex? key).isSome = true) :
    h.get id key = ((h.object id).getOwn? key).getD .undefined := by
  simp only [get, getWithin, harray, hindex]
  cases (h.object id).getOwn? key <;> rfl

end ScriptEngine.Heap
