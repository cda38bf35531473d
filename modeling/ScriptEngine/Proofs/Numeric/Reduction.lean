import ScriptEngine.Proofs.Numeric.DoubleArithmetic

/-!
# Reducing doubles to words

The reduction of a double to a word is a computation in doubles, and no step of it rounds. The
integer part of a double is a double. The remainder by `2 ^ 32` is a whole number of units that is
below `2 ^ 32`, so it is a double too, and so is its sum with `2 ^ 32` when it is negative. What is
cast is therefore the integer part modulo `2 ^ 32`, and the cast never reaches its bounds.
-/

namespace ScriptEngine.Numeric

open Float.Model UnpackedFloat

section Quotients

variable {num den n : ℕ}

theorem magnitudeBits_of_value {m : ℕ} {e : ℤ} (hd : IsPositiveDouble m e) (hnum : 0 < num)
    (hden : 0 < den) (h : (num : ℚ) / den = m * 2 ^ e) :
    magnitudeBits num den = (e + 1074).toNat * 0x10000000000000 + m := by
  have hpow : (0 : ℚ) < 2 ^ e := by positivity
  have hunits : (num : ℚ) / den / 2 ^ e = m := by
    rw [h, mul_div_assoc, div_self hpow.ne', mul_one]
  have hreach : 0 < Neighbourhood.reach m e := by
    unfold Neighbourhood.reach
    split <;> norm_num
  apply magnitudeBits_of_holds hd hnum hden
  rw [Neighbourhood.holds_iff hd.pos, hunits]
  exact ⟨by linarith, by linarith, fun _ => ⟨by linarith, by linarith⟩⟩

theorem decode_pack_zero (negative : Bool) :
    decode (pack negative 0) = .finite negative 0 (-1074) := by
  cases negative <;> decide

theorem decode_pack_natural (negative : Bool) {k : ℕ} (hlow : 2 ^ 52 ≤ n * 2 ^ k)
    (hhigh : n * 2 ^ k < 2 ^ 53) (hk : k ≤ 52) :
    decode (pack negative ((-k + 1074 : ℤ).toNat * 0x10000000000000 + n * 2 ^ k)) =
      .finite negative (n * 2 ^ k) (-k) := by
  have hdecode := decode_pack_of_full negative hlow hhigh (by omega : -1074 ≤ (-k : ℤ)) (by omega)
    (by omega)
  rw [pack_of_decode hdecode]
  exact hdecode

theorem value?_ofRatio (negative : Bool) (hden : 0 < den) (hnum : num = n * den)
    (hn : n < 2 ^ 53) :
    value? (ofRatio negative num den) = some ((if negative then -1 else 1) * (n : ℚ)) := by
  unfold ofRatio
  rcases Nat.eq_zero_or_pos n with rfl | hpos
  · rw [hnum, zero_mul]
    change value? (pack negative 0) = _
    rw [value?_of_decode (decode_pack_zero negative)]
    simp
  · obtain ⟨k, hk, -, hlow, hhigh⟩ := exists_full hpos hn
    have hd : IsPositiveDouble (n * 2 ^ k) (-k) :=
      ⟨by omega, hhigh, by omega, by omega, .inr hlow⟩
    have hquotient : (num : ℚ) / den = ((n * 2 ^ k : ℕ) : ℚ) * 2 ^ (-k : ℤ) := by
      rw [scaled_value, hnum, Nat.cast_mul, mul_div_assoc, div_self (by positivity), mul_one]
    have hpositive : 0 < num := hnum ▸ Nat.mul_pos hpos hden
    rw [magnitudeBits_of_value hd hpositive hden hquotient,
      value?_of_decode (decode_pack_natural negative hlow hhigh hk), scaled_value]

end Quotients

section Remainders

variable {x y : Float} {t : ℤ}

theorem exists_magnitude (hx : value? x = some (t : ℚ)) :
    ∃ negative m e, decode x = .finite negative m e ∧ (m : ℚ) * 2 ^ e = t.natAbs ∧
      t = if negative then -(t.natAbs : ℤ) else t.natAbs := by
  obtain ⟨negative, m, e, hdecode, ht⟩ := value?_eq_some hx
  have hnonneg : (0 : ℚ) ≤ m * 2 ^ e := by positivity
  have hsize : (m : ℚ) * 2 ^ e = (t.natAbs : ℚ) := by
    rw [Nat.cast_natAbs, Int.cast_abs, ht]
    cases negative <;> simp [abs_of_nonneg hnonneg]
  refine ⟨negative, m, e, hdecode, hsize, Int.cast_injective (α := ℚ) ?_⟩
  rw [ht, hsize]
  cases negative <;> simp

theorem scaled_eq {m n : ℕ} {e e' : ℤ} (hle : e' ≤ e) (h : (m : ℚ) * 2 ^ e = n) :
    m * 2 ^ (e - e').toNat * 2 ^ e'.toNat = n * 2 ^ (-e').toNat := by
  have hexponent : ((e - e').toNat + e'.toNat : ℤ) = e + (-e').toNat := by omega
  have hcast : (m : ℚ) * 2 ^ (e - e').toNat * 2 ^ e'.toNat = n * 2 ^ (-e').toNat := by
    rw [← h, ← zpow_natCast, ← zpow_natCast, ← zpow_natCast, mul_assoc, mul_assoc,
      ← zpow_add₀ two_ne_zero, ← zpow_add₀ two_ne_zero, hexponent]
  exact_mod_cast hcast

theorem signed_mod (negative : Bool) (n d : ℕ) :
    ((if negative then -1 else 1) * ((n % d : ℕ) : ℚ)) =
      ((if negative then -(n : ℤ) else n).tmod d : ℤ) := by
  have hmod : ((n % d : ℕ) : ℚ) = ((n : ℤ).tmod d : ℤ) := by
    rw [← Int.ofNat_tmod, Int.cast_natCast]
  cases negative with
  | false => simpa only [Bool.false_eq_true, if_false, one_mul] using hmod
  | true => simpa only [if_true, neg_one_mul, Int.neg_tmod, Int.cast_neg, neg_inj] using hmod

theorem value?_remainder {d : ℕ} (hx : value? x = some (t : ℚ)) (hy : value? y = some (d : ℚ))
    (hpos : 0 < d) (hd : d < 2 ^ 53) :
    value? (remainder x y) = some ((t.tmod d : ℤ) : ℚ) := by
  obtain ⟨negative, m, e, hdecode, hsize, ht⟩ := exists_magnitude hx
  obtain ⟨_, m', e', hdecode', hsize', -⟩ := exists_magnitude (t := d) hy
  rw [Int.natAbs_natCast] at hsize'
  have hm' : m' ≠ 0 := by
    rintro rfl
    rw [Nat.cast_zero, zero_mul] at hsize'
    exact hpos.ne (by exact_mod_cast hsize')
  have hleft := scaled_eq (min_le_left e e') hsize
  have hright := scaled_eq (min_le_right e e') hsize'
  unfold remainder
  rw [hdecode, hdecode']
  dsimp only
  rw [if_neg hm']
  unfold ofDyadic
  rw [value?_ofRatio negative (n := t.natAbs % d), signed_mod, ← ht]
  · simp [Nat.shiftLeft_eq]
  · simp only [Nat.shiftLeft_eq, one_mul]
    rw [← Nat.mul_mod_mul_right, hleft, hright, Nat.mul_mod_mul_right]
  · exact (Nat.mod_lt _ hpos).trans hd

theorem value?_modulus : value? 4294967296 = some ((4294967296 : ℕ) : ℚ) := by
  have hdecode : decode 4294967296 = .finite false (2 ^ 52) (-20) := by decide
  rw [value?_of_decode hdecode]
  norm_num

theorem value?_abs_modulus : value? (Float.abs 4294967296) = some (4294967296 : ℤ) := by
  have hdecode : decode (Float.abs 4294967296) = .finite false (2 ^ 52) (-20) := by decide
  rw [value?_of_decode hdecode]
  norm_num

theorem value?_zero : value? 0 = some (0 : ℤ) := by
  have hdecode : decode 0 = .finite false 0 (-1074) := by decide
  rw [value?_of_decode hdecode]
  norm_num

theorem value?_euclideanRemainder (hx : value? x = some (t : ℚ)) :
    value? (euclideanRemainder x 4294967296) = some ((t % 4294967296 : ℤ) : ℚ) := by
  have hremainder : value? (remainder x 4294967296) = some ((t.tmod 4294967296 : ℤ) : ℚ) :=
    value?_remainder hx value?_modulus (by norm_num) (by norm_num)
  have hmod := Int.emod_eq_tmod (a := t) (b := 4294967296)
  have hnegative : remainder x 4294967296 < 0 ↔ t.tmod 4294967296 < 0 :=
    (lt_iff_value hremainder value?_zero).trans Int.cast_lt
  unfold euclideanRemainder
  dsimp only
  by_cases h : t.tmod 4294967296 < 0
  · rw [if_pos (hnegative.2 h)]
    have hsum : t % 4294967296 = t.tmod 4294967296 + 4294967296 := by
      split at hmod <;> omega
    refine value?_add hremainder value?_abs_modulus ?_ ?_
    · rw [hsum]
      push_cast
      rfl
    · rw [abs_lt]
      omega
  · rw [if_neg (fun hlt => h (hnegative.1 hlt)), hremainder]
    have hsame : t % 4294967296 = t.tmod 4294967296 := by
      split at hmod <;> omega
    rw [hsame]

end Remainders

theorem toNat_toWord {x : Float} {v : ℚ} (h : value? x = some v) :
    ((toWord x).toNat : ℤ) = towardZero v % 2 ^ 32 := by
  have hfinite : isFinite x = true := by
    obtain ⟨negative, m, e, hx, -⟩ := value?_eq_some h
    unfold isFinite
    rw [hx]
  have hreduced := value?_euclideanRemainder (value?_truncated h)
  have hcast := toNat_toUInt32 hreduced
  rw [towardZero_intCast] at hcast
  unfold toWord
  rw [if_pos hfinite, hcast]
  omega

theorem toWord_of_not_finite {x : Float} (h : value? x = none) : toWord x = 0 := by
  unfold value? at h
  unfold toWord isFinite
  cases hx : decode x with
  | nan => rfl
  | infinite negative => rfl
  | finite negative m e =>
    rw [hx] at h
    cases h

end ScriptEngine.Numeric
