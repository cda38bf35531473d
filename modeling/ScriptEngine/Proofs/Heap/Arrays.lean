import ScriptEngine.Heap.Object

/-!
# The form of arrays

An array keeps to the limit on its length, and the keys that it answers from its elements are not
keys of its properties. Every write keeps to this form, and changes what the key is about and
nothing else.
-/

namespace ScriptEngine

theorem arrayIndex?_length : arrayIndex? "length" = none := by decide

theorem arrayLength?_le {x : Float} {n : Nat} (h : arrayLength? x = some n) :
    n ≤ maxArrayLength := by
  unfold arrayLength? at h
  split at h
  next k hk =>
    split at h
    next hle =>
      cases h
      exact Int.toNat_le.mpr hle.2
    next => cases h
  next => cases h

namespace Object

/-- Elements and properties that an array may have. -/
structure ArrayForm (items : Array Value) (properties : Properties) : Prop where
  size_le : items.size ≤ maxArrayLength
  length : "length" ∉ properties
  index : ∀ key ∈ properties, arrayIndex? key = none

def Formed (o : Object) : Prop :=
  ∀ items, o.kind = .array items → ArrayForm items o.properties

theorem formed_bare {kind : Kind} (h : ∀ items, kind = .array items → items.size ≤ maxArrayLength)
    (prototype : Option ObjectId) : (bare kind prototype).Formed :=
  fun items hkind => ⟨h items hkind, Std.TreeMap.not_mem_emptyc, fun _ hkey =>
    absurd hkey Std.TreeMap.not_mem_emptyc⟩

theorem elements?_eq_some_iff {o : Object} {items : Array Value} :
    o.elements? = some items ↔ o.kind = .array items := by
  obtain ⟨kind, prototype, properties⟩ := o
  cases kind <;> simp [elements?]

/-- What an array with some elements becomes when a value is written under a key. -/
inductive Stores (o : Object) (items : Array Value) (key : String) (v : Value) : Object → Prop where
  | element {i : Nat} (hkey : arrayIndex? key = some i) (hi : i < maxArrayLength)
      {items' : Array Value} (hsize : items'.size = max items.size (i + 1))
      (hat : items'[i]? = some v)
      (hgaps : ∀ j, items.size ≤ j → j < i → items'[j]? = some .undefined)
      (hothers : ∀ j < items.size, j ≠ i → items'[j]? = items[j]?) :
      Stores o items key v { o with kind := .array items' }
  | length {n : Nat} (hkey : key = "length") (hn : v.number?.bind arrayLength? = some n)
      {items' : Array Value} (hsize : items'.size = n)
      (hkept : ∀ j < n, j < items.size → items'[j]? = items[j]?)
      (hfilled : ∀ j < n, items.size ≤ j → items'[j]? = some .undefined) :
      Stores o items key v { o with kind := .array items' }
  | property (hlength : key ≠ "length") (hindex : arrayIndex? key = none) :
      Stores o items key v { o with properties := o.properties.insert key v }

theorem size_resize (items : Array Value) (n : Nat) : (resize items n).size = n := by
  unfold resize
  split <;> simp <;> omega

theorem getElem?_resize_of_lt {items : Array Value} {n j : Nat} (hn : j < n) (hj : j < items.size) :
    (resize items n)[j]? = items[j]? := by
  unfold resize
  split
  · rw [Array.shrink_eq_take, Array.take, Array.getElem?_extract, if_pos (by omega), Nat.zero_add]
  · rw [Array.getElem?_append_left hj]

theorem getElem?_resize_of_le {items : Array Value} {n j : Nat} (hn : j < n) (hj : items.size ≤ j) :
    (resize items n)[j]? = some .undefined := by
  unfold resize
  split
  · omega
  · rw [Array.getElem?_append_right hj, Array.getElem?_replicate, if_pos (by omega)]

def place (items : Array Value) (i : Nat) (v : Value) : Array Value :=
  if i < items.size then items.setIfInBounds i v else (resize items i).push v

theorem write_element (items : Array Value) (prototype : Option ObjectId) (properties : Properties)
    (i : Nat) (key : String) (v : Value) :
    write ⟨.array items, prototype, properties⟩ (.element i) key v =
      ⟨.array (place items i v), prototype, properties⟩ := by
  simp only [write, place]
  split <;> rfl

theorem size_place (items : Array Value) (i : Nat) (v : Value) :
    (place items i v).size = max items.size (i + 1) := by
  unfold place
  split
  · rw [Array.size_setIfInBounds]
    omega
  · rw [Array.size_push, size_resize]
    omega

theorem getElem?_place_self (items : Array Value) (i : Nat) (v : Value) :
    (place items i v)[i]? = some v := by
  unfold place
  split
  next hi => rw [Array.getElem?_setIfInBounds, if_pos rfl, if_pos hi]
  next => rw [Array.getElem?_push, size_resize, if_pos rfl]

theorem getElem?_place_of_ne {items : Array Value} {i j : Nat} (v : Value) (hj : j < items.size)
    (hne : j ≠ i) : (place items i v)[j]? = items[j]? := by
  unfold place
  split
  · rw [Array.getElem?_setIfInBounds, if_neg hne.symm]
  · rw [Array.getElem?_push, size_resize, if_neg hne, getElem?_resize_of_lt (by omega) hj]

theorem getElem?_place_gap {items : Array Value} {i j : Nat} (v : Value) (hj : items.size ≤ j)
    (hlt : j < i) : (place items i v)[j]? = some .undefined := by
  unfold place
  split
  · omega
  · rw [Array.getElem?_push, size_resize, if_neg (Nat.ne_of_lt hlt), getElem?_resize_of_le hlt hj]

variable {o o' : Object} {items : Array Value} {key : String} {v : Value}

theorem stores_write (hkind : o.kind = .array items) {slot : Slot}
    (hslot : o.slot? key v = some slot) : o.Stores items key v (o.write slot key v) := by
  obtain ⟨kind, prototype, properties⟩ := o
  cases hkind
  simp only [slot?] at hslot
  split at hslot
  next hkey =>
    obtain ⟨n, hn, rfl⟩ := Option.map_eq_some_iff.mp hslot
    exact .length hkey hn (size_resize items n) (fun _ => getElem?_resize_of_lt)
      fun _ => getElem?_resize_of_le
  next hlength =>
    split at hslot
    next i hindex =>
      split at hslot
      next hi =>
        cases hslot
        rw [write_element]
        exact .element hindex hi (size_place items i v) (getElem?_place_self items i v)
          (fun _ => getElem?_place_gap v) fun _ => getElem?_place_of_ne v
      next => cases hslot
    next hindex =>
      cases hslot
      exact .property hlength hindex

theorem set?_eq_none_iff (hkind : o.kind = .array items) :
    o.set? key v = none ↔ (key = "length" ∧ v.number?.bind arrayLength? = none) ∨
      ∃ i, arrayIndex? key = some i ∧ maxArrayLength ≤ i := by
  simp only [set?, slot?, hkind, Option.map_eq_none_iff]
  by_cases hkey : key = "length"
  · subst hkey
    simp [arrayIndex?_length]
  · cases hindex : arrayIndex? key with
    | none => simp [hkey]
    | some i => simp [hkey]

theorem stores_set? (hkind : o.kind = .array items) (h : o.set? key v = some o') :
    o.Stores items key v o' := by
  obtain ⟨slot, hslot, rfl⟩ := Option.map_eq_some_iff.mp h
  exact stores_write hkind hslot

theorem formed_of_not_array {o : Object} (h : o.isArray = false) : o.Formed := by
  intro items hkind
  simp [isArray, elements?, hkind] at h

namespace Formed

theorem define (h : o.isArray = false) (key : String) (v : Value) : (o.define key v).Formed :=
  formed_of_not_array h

theorem stores (ho : o.Formed) (hkind : o.kind = .array items) (h : o.Stores items key v o') :
    o'.Formed := by
  have hform := ho items hkind
  cases h with
  | element hkey hi hsize =>
    rintro _ ⟨⟩
    refine ⟨?_, hform.length, hform.index⟩
    have hle := hform.size_le
    omega
  | length hkey hn hsize =>
    rintro _ ⟨⟩
    obtain ⟨x, -, hx⟩ := Option.bind_eq_some_iff.mp hn
    exact ⟨hsize ▸ arrayLength?_le hx, hform.length, hform.index⟩
  | property hlength hindex =>
    intro items' hkind'
    cases hkind.symm.trans hkind'
    refine ⟨hform.size_le, fun hmem => ?_, fun key' hmem => ?_⟩
    · rcases Std.TreeMap.mem_insert.mp hmem with heq | hold
      · exact hlength (Std.LawfulEqCmp.eq_of_compare heq)
      · exact hform.length hold
    · rcases Std.TreeMap.mem_insert.mp hmem with heq | hold
      · exact Std.LawfulEqCmp.eq_of_compare heq ▸ hindex
      · exact hform.index key' hold

theorem write (ho : o.Formed) {slot : Slot} (hslot : o.slot? key v = some slot) :
    (o.write slot key v).Formed := by
  obtain ⟨kind, prototype, properties⟩ := o
  cases kind with
  | array items => exact ho.stores rfl (stores_write rfl hslot)
  | plain | closure | native | error => cases slot <;> exact formed_of_not_array rfl

theorem append (ho : o.Formed) (hkind : o.kind = .array items) {vs : List Value}
    (hsize : items.size + vs.length ≤ maxArrayLength) : (o.append vs).Formed := by
  obtain ⟨kind, prototype, properties⟩ := o
  cases hkind
  have hform := ho items rfl
  rintro _ ⟨⟩
  exact ⟨by simpa using hsize, hform.length, hform.index⟩

theorem dropLast (ho : o.Formed) : o.dropLast.Formed := by
  obtain ⟨kind, prototype, properties⟩ := o
  cases kind with
  | array items =>
    have hform := ho items rfl
    rintro _ ⟨⟩
    refine ⟨?_, hform.length, hform.index⟩
    rw [Array.size_pop]
    exact Nat.le_trans (Nat.sub_le _ _) hform.size_le
  | plain | closure | native | error => exact ho

end Formed

end Object

end ScriptEngine
