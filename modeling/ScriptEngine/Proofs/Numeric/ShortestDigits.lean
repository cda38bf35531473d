import ScriptEngine.Numeric.Decimal
import ScriptEngine.Proofs.Numeric.Rounding

/-!
# Shortest digits read back

The test of a grid point is membership in the neighbourhood of the double. Seventeen digits always
have a point there, since half of the seventeenth digit is less than the distance at which numbers
read back, so the search ends with such a point. Its digits without the zeros at the end, with the
point where it belongs, are the same number.
-/

namespace ScriptEngine.Numeric

theorem shift_div_shift (m : ℕ) (e : ℤ) :
    ((m <<< e.toNat : ℕ) : ℚ) / (1 <<< (-e).toNat : ℕ) = m * 2 ^ e := by
  rw [Nat.shiftLeft_eq, Nat.shiftLeft_eq, cast_scale_div_scale]
  simp

namespace Neighbourhood

theorem pos_of_holds {m : ℕ} {e : ℤ} {x : ℚ} (hm : 0 < m) (h : (around m e).Holds x) : 0 < x := by
  have hpow : (0 : ℚ) < 2 ^ e := by positivity
  have hlow := ((holds_iff hm x).1 h).1
  have hreach := reach_le_half m e
  have hone : (1 : ℚ) ≤ m := by exact_mod_cast hm
  have hpos : 0 < x / 2 ^ e := by linarith
  exact (div_pos_iff_of_pos_right hpow).1 hpos

theorem holds_of_close {m : ℕ} {e : ℤ} {x : ℚ} (hd : IsPositiveDouble m e)
    (hclose : |x - m * 2 ^ e| * (2 * 10 ^ 16) ≤ m * 2 ^ e) : (around m e).Holds x := by
  have hpow : (0 : ℚ) < 2 ^ e := by positivity
  have hscaled : |x / 2 ^ e - m| * (2 * 10 ^ 16) ≤ m := by
    have heq : x - m * 2 ^ e = (x / 2 ^ e - m) * 2 ^ e := by
      field_simp
    rw [heq, abs_mul, abs_of_pos hpow, mul_right_comm] at hclose
    exact le_of_mul_le_mul_right hclose hpow
  -- `2 ^ 53 < 10 ^ 16`; where only a quarter of a unit is left below, the mantissa is `2 ^ 52`
  have hm : (m : ℚ) < 0x20000000000000 := by exact_mod_cast hd.lt
  have hnear : m - reach m e < x / 2 ^ e ∧ x / 2 ^ e < m + 1 / 2 := by
    generalize x / 2 ^ e = y at hscaled
    have hlow := neg_abs_le (y - m)
    have hhigh := le_abs_self (y - m)
    constructor
    · unfold reach
      split
      next h =>
        obtain ⟨rfl, -⟩ := h
        push_cast at *
        linarith
      next => linarith
    · linarith
  exact (holds_iff hd.pos x).2 ⟨hnear.1.le, hnear.2.le, fun _ => hnear⟩

theorem mid_value (m : ℕ) (e : ℤ) :
    ((around m e).mid : ℚ) * 2 ^ (around m e).exponent = m * 2 ^ e := by
  change ((4 * m : ℕ) : ℚ) * 2 ^ (e - 2) = m * 2 ^ e
  rw [zpow_sub₀ two_ne_zero]
  push_cast
  ring

end Neighbourhood

namespace Grid

variable {n : Neighbourhood} {exponent : ℤ}

theorem step_pos : 0 < (Grid.of n exponent).step := by
  simp [Grid.of, Nat.shiftLeft_eq]

/-- One scale takes the naturals of the grid to the numbers they stand for. -/
theorem exists_scale (n : Neighbourhood) (exponent : ℤ) :
    ∃ s : ℚ, 0 < s ∧ ((Grid.of n exponent).unit : ℚ) * s = 2 ^ n.exponent ∧
      ((Grid.of n exponent).step : ℚ) * s = 10 ^ exponent := by
  have hunit : (0 : ℚ) < (Grid.of n exponent).unit := by
    simp [Grid.of, Nat.shiftLeft_eq]
  have hpow : (0 : ℚ) < 2 ^ n.exponent := by positivity
  have hten := cast_scale_div_scale 10 (2 ^ (-n.exponent).toNat) (2 ^ n.exponent.toNat) exponent
  have htwo := cast_scale_div_scale 2 1 1 (-n.exponent)
  simp only [one_mul, neg_neg, Nat.cast_one, div_one, Nat.cast_ofNat] at hten htwo
  rw [htwo, zpow_neg, ← div_eq_inv_mul, mul_comm, mul_comm (2 ^ n.exponent.toNat)] at hten
  have hratio : ((Grid.of n exponent).step : ℚ) / (Grid.of n exponent).unit =
      10 ^ exponent / 2 ^ n.exponent := by
    simpa [Grid.of, Nat.shiftLeft_eq] using hten
  refine ⟨2 ^ n.exponent / (Grid.of n exponent).unit, by positivity, by field_simp, ?_⟩
  field_simp at hratio ⊢
  linarith

theorem mul_unit_le_iff (x c : ℕ) :
    x * (Grid.of n exponent).unit ≤ c * (Grid.of n exponent).step ↔
      (x : ℚ) * 2 ^ n.exponent ≤ c * 10 ^ exponent := by
  obtain ⟨s, hs, hunit, hstep⟩ := exists_scale n exponent
  rw [← hunit, ← hstep, ← mul_assoc, ← mul_assoc, mul_le_mul_iff_left₀ hs]
  exact_mod_cast Iff.rfl

theorem mul_step_le_iff (x c : ℕ) :
    c * (Grid.of n exponent).step ≤ x * (Grid.of n exponent).unit ↔
      (c : ℚ) * 10 ^ exponent ≤ x * 2 ^ n.exponent := by
  obtain ⟨s, hs, hunit, hstep⟩ := exists_scale n exponent
  rw [← hunit, ← hstep, ← mul_assoc, ← mul_assoc, mul_le_mul_iff_left₀ hs]
  exact_mod_cast Iff.rfl

theorem hits_iff (c : ℕ) : (Grid.of n exponent).hits n c = true ↔ n.Holds (c * 10 ^ exponent) := by
  unfold Grid.hits Neighbourhood.Holds
  split
  · rw [Bool.and_eq_true, decide_eq_true_iff, decide_eq_true_iff, mul_unit_le_iff, mul_step_le_iff]
  · rw [Bool.and_eq_true, decide_eq_true_iff, decide_eq_true_iff, ← not_le, ← not_le,
      mul_step_le_iff, mul_unit_le_iff, not_le, not_le]

theorem hits_of_nearest? {g : Grid} {c : ℕ} (h : g.nearest? n = some c) : g.hits n c = true := by
  unfold Grid.nearest? at h
  dsimp only at h
  split at h
  next hbelow =>
    split at h
    next habove =>
      split at h
      · cases h
        exact hbelow
      · cases h
        exact habove
    next =>
      cases h
      exact hbelow
  next =>
    split at h
    next habove =>
      cases h
      exact habove
    next => cases h

theorem isSome_nearest? {g : Grid} (h : g.hits n (n.mid * g.unit / g.step) = true ∨
    g.hits n (n.mid * g.unit / g.step + 1) = true) : (g.nearest? n).isSome = true := by
  unfold Grid.nearest?
  dsimp only
  grind

theorem isSome_nearest?_of_fine {m : ℕ} {e : ℤ} (hd : IsPositiveDouble m e)
    (hfine : (10 : ℚ) ^ exponent * 10 ^ 16 ≤ m * 2 ^ e) :
    ((Grid.of (Neighbourhood.around m e) exponent).nearest? (Neighbourhood.around m e)).isSome =
      true := by
  apply isSome_nearest?
  have hmid := Neighbourhood.mid_value m e
  have hle := Nat.div_mul_le_self ((Neighbourhood.around m e).mid *
    (Grid.of (Neighbourhood.around m e) exponent).unit)
    (Grid.of (Neighbourhood.around m e) exponent).step
  have hlt := Nat.lt_mul_of_div_lt (Nat.lt_succ_self ((Neighbourhood.around m e).mid *
    (Grid.of (Neighbourhood.around m e) exponent).unit /
    (Grid.of (Neighbourhood.around m e) exponent).step)) step_pos
  rw [mul_step_le_iff, hmid] at hle
  rw [← not_le, mul_step_le_iff, hmid, not_le] at hlt
  rw [hits_iff, hits_iff]
  -- from here on only the distances of `c` and `c + 1` to the double matter
  generalize (Neighbourhood.around m e).mid * (Grid.of (Neighbourhood.around m e) exponent).unit /
    (Grid.of (Neighbourhood.around m e) exponent).step = c at hle hlt
  push_cast at hlt ⊢
  by_cases hhalf : m * 2 ^ e - c * 10 ^ exponent ≤ (10 : ℚ) ^ exponent / 2
  · left
    apply Neighbourhood.holds_of_close hd
    rw [abs_sub_comm, abs_of_nonneg (by linarith)]
    linarith
  · right
    apply Neighbourhood.holds_of_close hd
    rw [abs_of_nonneg (by linarith)]
    linarith

end Grid

theorem holds_shortestOn {m : ℕ} {e point : ℤ} (hd : IsPositiveDouble m e)
    (hpoint : (10 : ℚ) ^ (point - 1) ≤ m * 2 ^ e) :
    (Neighbourhood.around m e).Holds ((shortestOn (Neighbourhood.around m e) point).1 *
      10 ^ (shortestOn (Neighbourhood.around m e) point).2) := by
  unfold shortestOn
  dsimp only
  cases hfound : (List.range' 1 17).findSome? fun count =>
      ((Grid.of (Neighbourhood.around m e) (point - Int.ofNat count)).nearest?
        (Neighbourhood.around m e)).map fun c => (c, point - Int.ofNat count) with
  | some found =>
    obtain ⟨count, -, hcount⟩ := List.exists_of_findSome?_eq_some hfound
    obtain ⟨c, hc, rfl⟩ := Option.map_eq_some_iff.1 hcount
    exact (Grid.hits_iff c).1 (Grid.hits_of_nearest? hc)
  | none =>
    -- the last grid is fine enough for every double
    have hlast := List.findSome?_eq_none_iff.1 hfound 17 (by decide)
    have hfine : (10 : ℚ) ^ (point - Int.ofNat 17) * 10 ^ 16 ≤ m * 2 ^ e := by
      refine le_of_eq_of_le ?_ hpoint
      rw [← zpow_natCast, ← zpow_add₀ (by norm_num)]
      congr 1
      simp only [Int.ofNat_eq_natCast]
      omega
    have hsome := Grid.isSome_nearest?_of_fine hd hfine
    rw [Option.map_eq_none_iff] at hlast
    rw [hlast] at hsome
    cases hsome

section Digits

theorem naturalOf_eq_ofDigitChars (ds : List Char) : naturalOf ds = Nat.ofDigitChars 10 ds 0 := by
  rw [naturalOf_eq_foldl, Nat.ofDigitChars_eq_foldl]
  simp only [Nat.mul_comm 10]
  rfl

theorem naturalOf_append (ds es : List Char) :
    naturalOf (ds ++ es) = naturalOf ds * 10 ^ es.length + naturalOf es := by
  rw [naturalOf_eq_ofDigitChars, naturalOf_eq_ofDigitChars, naturalOf_eq_ofDigitChars,
    Nat.ofDigitChars_append, Nat.ofDigitChars_eq_ofDigitChars_zero, Nat.mul_comm]

theorem naturalOf_singleton (c : Char) : naturalOf [c] = digitValue c := rfl

theorem naturalOf_replicate_zero (k : ℕ) : naturalOf (List.replicate k '0') = 0 := by
  rw [naturalOf_eq_ofDigitChars, Nat.ofDigitChars_replicate_zero, Nat.mul_zero]

theorem naturalOf_toDigits (n : ℕ) : naturalOf (Nat.toDigits 10 n) = n := by
  rw [naturalOf_eq_ofDigitChars, Nat.ofDigitChars_ten_toDigits]

theorem all_isDigit_toDigits (n : ℕ) : (Nat.toDigits 10 n).all isDigit = true := by
  rw [List.all_eq_true]
  intro c hc
  exact Nat.isDigit_of_mem_toDigits (by norm_num) (by norm_num) hc

theorem exists_trimZeros (ds : List Char) : ∃ k, ds = trimZeros ds ++ List.replicate k '0' := by
  have hzeros : ds.reverse.takeWhile (· == '0') =
      List.replicate (ds.reverse.takeWhile (· == '0')).length '0' := by
    rw [List.eq_replicate_iff]
    refine ⟨rfl, fun c hc => ?_⟩
    simpa using List.all_eq_true.1 List.all_takeWhile c hc
  have hsplit := congrArg List.reverse
    (List.takeWhile_append_dropWhile (p := (· == '0')) (l := ds.reverse))
  rw [List.reverse_append, List.reverse_reverse, hzeros, List.reverse_replicate] at hsplit
  exact ⟨_, hsplit.symm⟩

def Digits.value (d : Digits) : ℚ :=
  naturalOf d.digits * 10 ^ (d.point - d.digits.length)

structure Digits.Proper (d : Digits) : Prop where
  nonempty : d.digits ≠ []
  all : d.digits.all isDigit = true
  low : (10 : ℚ) ^ (d.point - 1) ≤ d.value
  high : d.value < (10 : ℚ) ^ d.point

theorem length_toDigits_bounds {c : ℕ} (hc : 0 < c) :
    10 ^ ((Nat.toDigits 10 c).length - 1) ≤ c ∧ c < 10 ^ (Nat.toDigits 10 c).length := by
  have hpos : 0 < (Nat.toDigits 10 c).length := Nat.length_toDigits_pos
  refine ⟨?_, (Nat.length_toDigits_le_iff (by norm_num) hpos).1 le_rfl⟩
  by_contra hlt
  by_cases hone : (Nat.toDigits 10 c).length = 1
  · rw [hone] at hlt
    omega
  · have := (Nat.length_toDigits_le_iff (k := (Nat.toDigits 10 c).length - 1) (by norm_num)
      (by omega)).2 (not_le.1 hlt)
    omega

/-- The digits of a natural without the zeros at the end, on a grid of powers of ten. -/
def Digits.ofGrid (c : ℕ) (exponent : ℤ) : Digits :=
  ⟨trimZeros (Nat.toDigits 10 c), Int.ofNat (Nat.toDigits 10 c).length + exponent⟩

theorem Digits.value_ofGrid (c : ℕ) (exponent : ℤ) :
    (Digits.ofGrid c exponent).value = c * 10 ^ exponent := by
  obtain ⟨k, hk⟩ := exists_trimZeros (Nat.toDigits 10 c)
  have hc : (c : ℚ) = naturalOf (trimZeros (Nat.toDigits 10 c)) * 10 ^ k := by
    have := congrArg naturalOf hk
    rw [naturalOf_toDigits, naturalOf_append, naturalOf_replicate_zero,
      List.length_replicate] at this
    exact_mod_cast this
  have hlength : (Nat.toDigits 10 c).length = (trimZeros (Nat.toDigits 10 c)).length + k := by
    simpa using congrArg List.length hk
  unfold Digits.value Digits.ofGrid
  dsimp only
  rw [hc, mul_assoc, ← zpow_natCast, ← zpow_add₀ (by norm_num)]
  congr 2
  simp only [Int.ofNat_eq_natCast]
  omega

theorem Digits.proper_ofGrid {c : ℕ} {exponent : ℤ} (hc : 0 < c) :
    (Digits.ofGrid c exponent).Proper := by
  obtain ⟨k, hk⟩ := exists_trimZeros (Nat.toDigits 10 c)
  obtain ⟨hlow, hhigh⟩ := length_toDigits_bounds hc
  have hpos : 0 < (Nat.toDigits 10 c).length := Nat.length_toDigits_pos
  constructor
  · intro hnil
    change trimZeros (Nat.toDigits 10 c) = [] at hnil
    have hzero := congrArg naturalOf hk
    rw [hnil, List.nil_append, naturalOf_toDigits, naturalOf_replicate_zero] at hzero
    omega
  · have hall := all_isDigit_toDigits c
    rw [hk, List.all_append, Bool.and_eq_true] at hall
    exact hall.1
  · rw [Digits.value_ofGrid]
    have hcast : (10 : ℚ) ^ (((Nat.toDigits 10 c).length : ℤ) - 1) ≤ c := by
      rw [show ((Nat.toDigits 10 c).length : ℤ) - 1 = ((Nat.toDigits 10 c).length - 1 : ℕ) by omega]
      exact_mod_cast hlow
    have hpoint : (Digits.ofGrid c exponent).point - 1 =
        ((Nat.toDigits 10 c).length : ℤ) - 1 + exponent := by
      simp only [Digits.ofGrid, Int.ofNat_eq_natCast]
      omega
    rw [hpoint, zpow_add₀ (by norm_num)]
    gcongr
  · rw [Digits.value_ofGrid]
    have hcast : (c : ℚ) < (10 : ℚ) ^ ((Nat.toDigits 10 c).length : ℤ) := by
      exact_mod_cast hhigh
    change (c : ℚ) * 10 ^ exponent < 10 ^ (((Nat.toDigits 10 c).length : ℤ) + exponent)
    rw [zpow_add₀ (by norm_num)]
    gcongr

end Digits

theorem shortest_reads_back {m : ℕ} {e : ℤ} (hd : IsPositiveDouble m e) :
    (shortest m e).Proper ∧ (Neighbourhood.around m e).Holds (shortest m e).value := by
  have hnum : 0 < m <<< e.toNat := by simpa [Nat.shiftLeft_eq] using hd.pos
  have hden : 0 < 1 <<< (-e).toNat := by simp [Nat.shiftLeft_eq]
  have hm : (0 : ℚ) < m := by exact_mod_cast hd.pos
  have hpoint : (10 : ℚ) ^ (decimalPoint (m <<< e.toNat) (1 <<< (-e).toNat) - 1) ≤ m * 2 ^ e := by
    rw [decimalPoint_eq_log hnum hden, shift_div_shift, add_sub_cancel_right]
    exact_mod_cast Int.zpow_log_le_self (by norm_num) (by positivity : 0 < (m : ℚ) * 2 ^ e)
  have hholds := holds_shortestOn hd hpoint
  have heq : shortest m e = Digits.ofGrid
      (shortestOn (Neighbourhood.around m e) (decimalPoint (m <<< e.toNat) (1 <<< (-e).toNat))).1
      (shortestOn (Neighbourhood.around m e) (decimalPoint (m <<< e.toNat) (1 <<< (-e).toNat))).2 :=
    rfl
  rw [heq, Digits.value_ofGrid]
  refine ⟨Digits.proper_ofGrid ?_, hholds⟩
  have hpos := Neighbourhood.pos_of_holds hd.pos hholds
  by_contra hzero
  rw [Nat.eq_zero_of_not_pos hzero] at hpos
  simp at hpos

end ScriptEngine.Numeric
