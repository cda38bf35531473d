import Std.Data.String.ToNat
import ScriptEngine.Proofs.Heap.Arrays
import ScriptEngine.Proofs.Numeric.ShortestDigits

/-!
# The keys of arrays

The index keys are the decimal numerals, without leading zeros. An array answers for those of its
elements and for `length`, and for all other keys from its properties, so it lists no key twice.
-/

namespace ScriptEngine

namespace Numeric

theorem digitChar_digitValue {c : Char} (hc : isDigit c = true) : (digitValue c).digitChar = c := by
  obtain ⟨hlow, hhigh⟩ : 48 ≤ c.toNat ∧ c.toNat ≤ 57 := Char.isDigit_iff_toNat.mp hc
  apply Char.toNat_inj.mp
  rw [digitValue, Nat.toNat_digitChar_of_lt_ten (by omega)]
  omega

theorem digitValue_lt {c : Char} (hc : isDigit c = true) : digitValue c < 10 := by
  obtain ⟨-, hhigh⟩ : 48 ≤ c.toNat ∧ c.toNat ≤ 57 := Char.isDigit_iff_toNat.mp hc
  simp only [digitValue]
  omega

theorem toDigits_naturalOf {c : Char} {cs : List Char} (hdigits : (c :: cs).all isDigit = true)
    (hzero : cs ≠ [] → c ≠ '0') : Nat.toDigits 10 (naturalOf (c :: cs)) = c :: cs := by
  induction cs using List.reverseRecOn with
  | nil =>
    have hc : isDigit c = true := by simpa using hdigits
    rw [naturalOf_singleton, Nat.toDigits_of_lt_base (digitValue_lt hc), digitChar_digitValue hc]
  | append_singleton cs d ih =>
    have hc : c ≠ '0' := hzero (by simp)
    rw [← List.cons_append, List.all_append, Bool.and_eq_true] at hdigits
    have hd : isDigit d = true := by simpa using hdigits.2
    have hinit := ih hdigits.1 fun _ => hc
    -- the digits before the last are no zero, or the numeral of their number would begin with one
    have hpos : 0 < naturalOf (c :: cs) := by
      refine Nat.pos_of_ne_zero fun hnone => hc ?_
      rw [hnone] at hinit
      exact (List.cons.inj hinit).1.symm
    have hlast := Nat.toDigits_append_toDigits (b := 10) (by decide) hpos (digitValue_lt hd)
    rw [hinit, Nat.toDigits_of_lt_base (digitValue_lt hd), digitChar_digitValue hd] at hlast
    rw [← List.cons_append, naturalOf_append, naturalOf_singleton, hlast, List.length_singleton]
    congr 1
    omega

theorem ne_zero_of_toDigits {n : Nat} (hn : 0 < n) {c : Char} {cs : List Char}
    (h : Nat.toDigits 10 n = c :: cs) : c ≠ '0' := by
  induction n using Nat.strongRecOn generalizing cs with
  | ind n ih =>
    by_cases hsmall : n < 10
    · rw [Nat.toDigits_of_lt_base hsmall] at h
      rintro rfl
      have hzero := naturalOf_toDigits n
      rw [Nat.toDigits_of_lt_base hsmall, (List.cons.inj h).1] at hzero
      exact absurd hzero (Nat.ne_of_lt hn)
    · have hsplit := Nat.toDigits_append_toDigits (b := 10) (n := n / 10) (d := n % 10) (by decide)
        (by omega) (by omega)
      rw [Nat.div_add_mod, h] at hsplit
      cases htens : Nat.toDigits 10 (n / 10) with
      | nil => exact absurd htens Nat.toDigits_ne_nil
      | cons d ds =>
        rw [htens] at hsplit
        have hhead : d = c := (List.cons.inj hsplit).1
        exact ih (n / 10) (by omega) (by omega) (hhead ▸ htens)

end Numeric

open Numeric

theorem toList_toString (n : Nat) : (toString n).toList = Nat.toDigits 10 n := by
  have hnumeral : toString n = String.ofList (Nat.toDigits 10 n) := Nat.repr_eq_ofList_toDigits
  rw [hnumeral, String.toList_ofList]

theorem eq_toString_of_arrayIndex? {key : String} {i : Nat} (h : arrayIndex? key = some i) :
    key = toString i ∧ i < 4294967295 := by
  unfold arrayIndex? at h
  split at h
  next => cases h
  next c cs hkey =>
    split at h
    next => cases h
    next hdigits =>
      split at h
      next => cases h
      next hzero =>
        dsimp only at h
        split at h
        next hlt =>
          cases h
          refine ⟨String.toList_inj.mp ?_, hlt⟩
          rw [toList_toString, toDigits_naturalOf (by simpa using hdigits), hkey]
          exact fun hne hc => hzero ⟨hc, by simpa using hne⟩
        next => cases h

theorem arrayIndex?_toString {i : Nat} (hi : i < 4294967295) :
    arrayIndex? (toString i) = some i := by
  have hread := naturalOf_toDigits i
  have hdigits := all_isDigit_toDigits i
  unfold arrayIndex?
  rw [toList_toString]
  cases hcs : Nat.toDigits 10 i with
  | nil => exact absurd hcs Nat.toDigits_ne_nil
  | cons c cs =>
    rw [hcs] at hread hdigits
    have hzero : ¬(c = '0' ∧ (!cs.isEmpty) = true) := by
      rintro ⟨rfl, hne⟩
      by_cases hpos : 0 < i
      · exact ne_zero_of_toDigits hpos hcs rfl
      · obtain rfl : i = 0 := Nat.eq_zero_of_not_pos hpos
        cases hcs
        cases hne
    simp only [hdigits, hread, if_neg hzero, if_pos hi]
    rfl

theorem Object.ArrayForm.arrayIndex?_of_lt {items : Array Value} {properties : Properties}
    (h : ArrayForm items properties) {i : Nat} (hi : i < items.size) :
    arrayIndex? (toString i) = some i := by
  refine arrayIndex?_toString (Nat.lt_of_lt_of_le hi (Nat.le_trans h.size_le ?_))
  decide

namespace Object.Formed

variable {o : Object} (ho : o.Formed) {items : Array Value} (hkind : o.kind = .array items)

include ho hkind

theorem nodup_keys : o.keys.Nodup := by
  obtain ⟨kind, prototype, properties⟩ := o
  cases hkind
  have hform := ho items rfl
  refine List.nodup_append.mpr ⟨?_, Std.TreeMap.nodup_keys, ?_⟩
  · exact List.nodup_range.map fun _ _ => Nat.repr_inj.mp
  · rintro _ hindex key hkey rfl
    obtain ⟨i, hi, rfl⟩ := List.mem_map.mp hindex
    have hnone := hform.index _ (Std.TreeMap.mem_keys.mp hkey)
    rw [hform.arrayIndex?_of_lt (List.mem_range.mp hi)] at hnone
    cases hnone

theorem mem_keys_iff (key : String) : key ∈ o.keys ↔ key ≠ "length" ∧ o.hasOwn key = true := by
  obtain ⟨kind, prototype, properties⟩ := o
  cases hkind
  have hform : ArrayForm items properties := ho items rfl
  have hindices : key ∈ (List.range items.size).map toString ↔
      ∃ i < items.size, arrayIndex? key = some i := by
    rw [List.mem_map]
    constructor
    · rintro ⟨i, hi, rfl⟩
      exact ⟨i, List.mem_range.mp hi, hform.arrayIndex?_of_lt (List.mem_range.mp hi)⟩
    · rintro ⟨i, hi, hkey⟩
      exact ⟨i, List.mem_range.mpr hi, (eq_toString_of_arrayIndex? hkey).1.symm⟩
  simp only [keys, List.mem_append, hindices, Std.TreeMap.mem_keys, hasOwn, getOwn?]
  by_cases hkey : key = "length"
  · subst hkey
    simp [arrayIndex?_length, hform.length]
  · cases hindex : arrayIndex? key with
    | none => simp [hkey]
    | some i =>
      have hfree : key ∉ properties := fun hmem => by
        rw [hform.index key hmem] at hindex
        cases hindex
      simp [hkey, hfree]

end Object.Formed

end ScriptEngine
