import ScriptEngine.Proofs.Numeric.ExactValues
import ScriptEngine.Proofs.Numeric.ReadingBack

/-!
# The numerals of integers

An integer below `2 ^ 53` is on the decimal grid of its last digit, and no other integer reads back
as its double. So the search for the shortest digits stops at that grid or a coarser one, and what
it finds is the integer with its zeros at the end left out, which the layout puts back. No other
double has a text that is the numeral of an integer.
-/

namespace ScriptEngine.Numeric

section Search

variable {n : Neighbourhood} {point : ℤ} {count : ℕ}

theorem exists_shortestOn (hlow : 1 ≤ count) (hhigh : count ≤ 17)
    (h : ((Grid.of n (point - count)).nearest? n).isSome = true) :
    ∃ c fewer : ℕ, fewer ≤ count ∧ shortestOn n point = (c, point - fewer) ∧
      n.Holds (c * 10 ^ (point - fewer)) := by
  have hmem : count ∈ List.range' 1 17 := by
    rw [List.mem_range'_1]
    omega
  unfold shortestOn
  dsimp only
  cases hfound : (List.range' 1 17).findSome? fun count =>
      ((Grid.of n (point - Int.ofNat count)).nearest? n).map fun c =>
        (c, point - Int.ofNat count) with
  | none =>
    have hnone := List.findSome?_eq_none_iff.1 hfound count hmem
    rw [Option.map_eq_none_iff] at hnone
    rw [Int.ofNat_eq_natCast] at hnone
    rw [hnone] at h
    cases h
  | some found =>
    obtain ⟨before, fewer, behind, hrange, hhere, hbefore⟩ := List.findSome?_eq_some_iff.1 hfound
    obtain ⟨c, hc, rfl⟩ := Option.map_eq_some_iff.1 hhere
    refine ⟨c, fewer, ?_, rfl, (Grid.hits_iff c).1 (Grid.hits_of_nearest? hc)⟩
    -- the counts before the one that is found have no such point
    have hsorted : (before ++ fewer :: behind).Pairwise (· < ·) :=
      hrange ▸ List.pairwise_lt_range'
    rw [hrange] at hmem
    rcases List.mem_append.1 hmem with hmem | hmem
    · have hnone := hbefore count hmem
      rw [Option.map_eq_none_iff, Int.ofNat_eq_natCast] at hnone
      rw [hnone] at h
      cases h
    · rcases List.mem_cons.1 hmem with rfl | hmem
      · exact le_rfl
      · exact (List.rel_of_pairwise_cons (List.pairwise_append.1 hsorted).2.1 hmem).le

end Search

section Integers

variable {m : ℕ} {e : ℤ} {i : ℕ}

theorem isSome_nearest?_of_integer (hd : IsPositiveDouble m e) (hvalue : (m : ℚ) * 2 ^ e = i) :
    ((Grid.of (Neighbourhood.around m e) 0).nearest? (Neighbourhood.around m e)).isSome = true := by
  have hmid := Neighbourhood.mid_value m e
  have hexact : (Neighbourhood.around m e).mid * (Grid.of (Neighbourhood.around m e) 0).unit =
      i * (Grid.of (Neighbourhood.around m e) 0).step := by
    apply le_antisymm
    · rw [Grid.mul_unit_le_iff, hmid, hvalue, zpow_zero, mul_one]
    · rw [Grid.mul_step_le_iff, hmid, hvalue, zpow_zero, mul_one]
  apply Grid.isSome_nearest?
  left
  rw [hexact, Nat.mul_div_cancel _ Grid.step_pos, Grid.hits_iff]
  apply Neighbourhood.holds_of_close hd
  rw [zpow_zero, mul_one, hvalue, sub_self, abs_zero, zero_mul]
  exact Nat.cast_nonneg i

/-- Half of the unit of a double below `2 ^ 53` is less than the distance to another integer. -/
theorem eq_of_holds_integer (hd : IsPositiveDouble m e) (hvalue : (m : ℚ) * 2 ^ e = i)
    (hi : i < 2 ^ 53) {j : ℕ} (h : (Neighbourhood.around m e).Holds j) : j = i := by
  have hpow : (0 : ℚ) < 2 ^ e := by positivity
  have he : e ≤ 0 := by
    by_contra hpos
    have hm : (2 ^ 52 : ℚ) ≤ m := by
      have := hd.full.resolve_left (by omega)
      exact_mod_cast this
    have htwo : (2 : ℚ) ^ (1 : ℤ) ≤ 2 ^ e := zpow_le_zpow_right₀ (by norm_num) (by omega)
    have hlt : (i : ℚ) < 2 ^ 53 := by exact_mod_cast hi
    rw [← hvalue] at hlt
    rw [zpow_one] at htwo
    nlinarith
  have hunit : (2 : ℚ) ^ e ≤ 1 := zpow_le_one_of_nonpos₀ (by norm_num) he
  obtain ⟨hlow, hhigh, -⟩ := (Neighbourhood.holds_iff hd.pos _).1 h
  have hreach := reach_le_half m e
  rw [le_div_iff₀ hpow] at hlow
  rw [div_le_iff₀ hpow] at hhigh
  have hbelow : (i : ℚ) - 1 < j := by nlinarith
  have habove : (j : ℚ) < i + 1 := by nlinarith
  have hbelow' : i < j + 1 := by
    have : (i : ℚ) < j + 1 := by linarith
    exact_mod_cast this
  have habove' : j < i + 1 := by exact_mod_cast habove
  omega

theorem shortest_of_integer (hd : IsPositiveDouble m e) (hvalue : (m : ℚ) * 2 ^ e = i)
    (hi : i < 2 ^ 53) : ∃ c k : ℕ, shortest m e = Digits.ofGrid c k ∧ c * 10 ^ k = i := by
  have hpos : 0 < i := by
    have hm : (0 : ℚ) < m := by exact_mod_cast hd.pos
    have : (0 : ℚ) < i := by
      rw [← hvalue]
      positivity
    exact_mod_cast this
  have hpoint : decimalPoint (m <<< e.toNat) (1 <<< (-e).toNat) = (Nat.log 10 i + 1 : ℕ) := by
    have hlog : Int.log 10 (i : ℚ) = (Nat.log 10 i : ℤ) := Int.log_natCast 10 i
    rw [decimalPoint_eq_log (by simpa [Nat.shiftLeft_eq] using hd.pos)
      (by simp [Nat.shiftLeft_eq]), shift_div_shift, hvalue, hlog]
    push_cast
    rfl
  have hcount : Nat.log 10 i < 16 := Nat.log_lt_of_lt_pow hpos.ne' (hi.trans (by norm_num))
  have hsome := isSome_nearest?_of_integer hd hvalue
  rw [← sub_self ((Nat.log 10 i + 1 : ℕ) : ℤ)] at hsome
  obtain ⟨c, fewer, hle, hsearch, hholds⟩ := exists_shortestOn (by omega) (by omega) hsome
  obtain ⟨k, hk⟩ := Nat.exists_eq_add_of_le hle
  have hexponent : ((Nat.log 10 i + 1 : ℕ) : ℤ) - fewer = k := by
    rw [hk]
    push_cast
    ring
  rw [hexponent] at hsearch hholds
  refine ⟨c, k, ?_, ?_⟩
  · unfold shortest
    dsimp only
    rw [hpoint, hsearch]
    rfl
  · apply eq_of_holds_integer hd hvalue hi
    rw [zpow_natCast] at hholds
    exact_mod_cast hholds

end Integers

section Layouts

theorem toDigits_mul_ten_pow {c : ℕ} (hc : 0 < c) (k : ℕ) :
    Nat.toDigits 10 (c * 10 ^ k) = Nat.toDigits 10 c ++ List.replicate k '0' := by
  induction k with
  | zero => simp
  | succ k ih =>
    have hpos : 0 < c * 10 ^ k := Nat.mul_pos hc (Nat.pow_pos (by norm_num))
    have hlast := Nat.toDigits_append_toDigits (b := 10) (d := 0) (by norm_num) hpos (by norm_num)
    have hsucc : c * 10 ^ (k + 1) = 10 * (c * 10 ^ k) + 0 := by ring
    rw [hsucc, ← hlast, ih, List.replicate_succ', List.append_assoc]
    rfl

theorem write_ofGrid {c k : ℕ} (hc : 0 < c) (hsize : c * 10 ^ k < 10 ^ 21) :
    numeralLayout.write (Digits.ofGrid c k) = Nat.toDigits 10 (c * 10 ^ k) := by
  obtain ⟨j, hj⟩ := exists_trimZeros (Nat.toDigits 10 c)
  have hlength : (Nat.toDigits 10 c).length = (trimZeros (Nat.toDigits 10 c)).length + j := by
    simpa using congrArg List.length hj
  have hdigits := toDigits_mul_ten_pow hc k
  have hbound : (Nat.toDigits 10 c).length + k ≤ 21 := by
    have := (Nat.length_toDigits_le_iff (by norm_num) (by norm_num)).2 hsize
    simpa [hdigits] using this
  rw [hdigits]
  unfold Layout.write Digits.ofGrid numeralLayout
  simp only [Int.ofNat_eq_natCast]
  rw [if_pos (by omega)]
  have hzeros : ((Nat.toDigits 10 c).length +
    k - (trimZeros (Nat.toDigits 10 c)).length : ℤ).toNat =
      j + k := by omega
  unfold zeros
  rw [hzeros, ← List.replicate_append_replicate, ← List.append_assoc, ← hj]

end Layouts

section Numerals

variable {x : Float} {i : ℕ}

theorem numeral_of_value (hx : value? x = some (i : ℚ)) (hi : i < 2 ^ 53) :
    numeral x = Nat.toDigits 10 i := by
  cases hdecode : decode x with
  | nan => simp [value?, hdecode] at hx
  | infinite negative => simp [value?, hdecode] at hx
  | finite negative m e =>
    rw [value?_of_decode hdecode, Option.some.injEq] at hx
    unfold numeral
    rw [hdecode]
    dsimp only
    by_cases hm : m = 0
    · subst hm
      obtain rfl : i = 0 := by simpa using hx.symm
      rfl
    · have hd := isPositiveDouble_of_decode hdecode hm
      have hpositive : (0 : ℚ) < m * 2 ^ e := by
        have : (0 : ℚ) < m := by exact_mod_cast hd.pos
        positivity
      cases negative with
      | true =>
        have hnonneg : (0 : ℚ) ≤ i := Nat.cast_nonneg i
        rw [← hx] at hnonneg
        simp only [if_true] at hnonneg
        linarith
      | false =>
        simp only [Bool.false_eq_true, if_false, one_mul] at hx ⊢
        obtain ⟨c, k, hshortest, rfl⟩ := shortest_of_integer hd hx hi
        have hc : 0 < c := by
          refine Nat.pos_of_ne_zero ?_
          rintro rfl
          rw [hx] at hpositive
          simp at hpositive
        rw [if_neg hm, hshortest, write_ofGrid hc (hi.trans (by norm_num))]

theorem readFloat?_numeral {negative : Bool} {m : ℕ} {e : ℤ} (h : decode x = .finite negative m e)
    (hm : m ≠ 0) : readFloat? (numeral x) = some x := by
  obtain ⟨s, htext, hvalue⟩ := exists_spelling_of_ne_zero h hm
  rw [htext, s.readFloat?, hvalue]

theorem isDigit_of_numeral (h : numeral x = Nat.toDigits 10 i) :
    ∀ c ∈ numeral x, isDigit c = true := by
  rw [h]
  exact List.all_eq_true.1 (all_isDigit_toDigits i)

theorem value_of_numeral (hi : i < 2 ^ 53) (h : numeral x = Nat.toDigits 10 i) :
    value? x = some (i : ℚ) := by
  have hdigits := isDigit_of_numeral h
  cases hdecode : decode x with
  | nan =>
    simp only [numeral, hdecode] at hdigits
    exact absurd (hdigits 'N' (by decide)) (by decide)
  | infinite negative =>
    simp only [numeral, hdecode] at hdigits
    cases negative with
    | false => exact absurd (hdigits 'I' (by decide)) (by decide)
    | true => exact absurd (hdigits '-' (by decide)) (by decide)
  | finite negative m e =>
    by_cases hm : m = 0
    · subst hm
      have hzero : naturalOf (numeral x) = 0 := by
        simp only [numeral, hdecode, if_true]
        rfl
      rw [h, naturalOf_toDigits] at hzero
      rw [value?_of_decode hdecode, hzero]
      simp
    · -- the numeral of the integer is read as this number and as the integer
      have hread := readFloat?_numeral hdecode hm
      rw [h] at hread
      rcases Nat.eq_zero_or_pos i with rfl | hpos
      · have hzero : (readFloat? (Nat.toDigits 10 0)).map decode =
          some (.finite false 0 (-1074)) := by
          decide
        rw [hread, Option.map_some, hdecode] at hzero
        cases hzero
        exact absurd rfl hm
      · obtain ⟨k, hlarge, hinteger⟩ := decode_ofNat hpos hi
        have hback := readFloat?_numeral hinteger (by omega)
        rw [numeral_of_value (value?_ofNat hi) hi, hread] at hback
        rw [Option.some.inj hback, value?_ofNat hi]

theorem numeral_eq_toDigits_iff (hi : i < 2 ^ 53) :
    numeral x = Nat.toDigits 10 i ↔ value? x = some (i : ℚ) :=
  ⟨value_of_numeral hi, fun hx => numeral_of_value hx hi⟩

end Numerals

end ScriptEngine.Numeric
