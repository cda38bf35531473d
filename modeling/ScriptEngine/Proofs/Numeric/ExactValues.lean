import ScriptEngine.Numeric.Integer
import ScriptEngine.Proofs.Numeric.Encoding

/-!
# Exact values and integer parts

A finite double is a rational, and its integer part is that rational rounded toward zero. Integers
below `2 ^ 53` in magnitude survive the way into a double: `Float.ofInt` has them as its value.
-/

namespace ScriptEngine.Numeric

open Float.Model UnpackedFloat

def value? (x : Float) : Option ℚ :=
  match decode x with
  | .finite negative mantissa exponent =>
    some ((if negative then -1 else 1) * (mantissa * 2 ^ exponent))
  | _ => none

def towardZero (v : ℚ) : ℤ :=
  if 0 ≤ v then ⌊v⌋ else ⌈v⌉

theorem towardZero_neg (v : ℚ) : towardZero (-v) = -towardZero v := by
  unfold towardZero
  rcases lt_trichotomy v 0 with hneg | rfl | hpos
  · rw [if_pos (by linarith), if_neg (by linarith), Int.floor_neg]
  · simp
  · rw [if_neg (by linarith), if_pos hpos.le, Int.ceil_neg]

theorem towardZero_intCast (n : ℤ) : towardZero n = n := by
  unfold towardZero
  split
  · exact Int.floor_intCast n
  · exact Int.ceil_intCast n

theorem towardZero_natCast (n : ℕ) : towardZero n = n :=
  towardZero_intCast n

theorem shift_eq_floor (m : ℕ) (e : ℤ) :
    (((m <<< e.toNat) >>> (-e).toNat : ℕ) : ℤ) = ⌊(m : ℚ) * 2 ^ e⌋ := by
  rw [Nat.shiftLeft_eq, Nat.shiftRight_eq_div_pow]
  obtain ⟨k, rfl | rfl⟩ := e.eq_nat_or_neg
  · have hwhole : (m : ℚ) * 2 ^ (k : ℤ) = ((m * 2 ^ k : ℤ) : ℚ) := by
      push_cast
      rw [zpow_natCast]
    rw [hwhole, Int.floor_intCast]
    simp
  · have hquotient : (m : ℚ) * 2 ^ (-(k : ℤ)) = (m : ℚ) / ((2 ^ k : ℕ) : ℚ) := by
      rw [zpow_neg, zpow_natCast, div_eq_mul_inv]
      push_cast
      rfl
    rw [hquotient, Rat.floor_natCast_div_natCast]
    simp

theorem integerPart_eq (negative : Bool) (m : ℕ) (e : ℤ) :
    integerPart negative m e = towardZero ((if negative then -1 else 1) * (m * 2 ^ e)) := by
  have hnonneg : (0 : ℚ) ≤ m * 2 ^ e := by positivity
  have hfloor : towardZero (m * 2 ^ e) = ⌊(m : ℚ) * 2 ^ e⌋ := if_pos hnonneg
  unfold integerPart
  simp only [Int.ofNat_eq_natCast, shift_eq_floor, ← hfloor]
  cases negative with
  | false => simp
  | true => simp [towardZero_neg]

theorem truncate?_eq (x : Float) : truncate? x = (value? x).map towardZero := by
  unfold truncate? value?
  cases decode x with
  | nan => rfl
  | infinite negative => rfl
  | finite negative m e => exact congrArg some (integerPart_eq negative m e)

theorem truncate?_eq_some {x : Float} {v : ℚ} (h : value? x = some v) :
    truncate? x = some (towardZero v) := by
  rw [truncate?_eq, h]
  rfl

section Rounding

theorem log2_of_full {m : ℕ} (hlow : 2 ^ 52 ≤ m) (hhigh : m < 2 ^ 53) (j : ℕ) :
    (m * 2 ^ j).log2 = 52 + j := by
  have hpos : 0 < m * 2 ^ j := Nat.mul_pos (by omega) (Nat.two_pow_pos j)
  rw [Nat.log2_eq_iff hpos.ne', pow_succ, pow_add, mul_right_comm]
  have hpow : 0 < 2 ^ j := Nat.two_pow_pos j
  exact ⟨Nat.mul_le_mul_right _ hlow, Nat.mul_lt_mul_of_pos_right hhigh hpow⟩

theorem repeat_shiftRightOne (m j : ℕ) :
    j.repeat ExtendedMantissa.shiftRightOne ⟨m * 2 ^ j, false, false⟩ = ⟨m, false, false⟩ := by
  induction j generalizing m with
  | zero => simp [Nat.repeat]
  | succ j ih =>
    have hdouble : m * 2 ^ (j + 1) = 2 * m * 2 ^ j := by ring
    rw [Nat.repeat, hdouble, ih (2 * m)]
    simp [ExtendedMantissa.shiftRightOne]

theorem targetExponent_of_full {m : ℕ} {e : ℤ} (hlow : 2 ^ 52 ≤ m) (hhigh : m < 2 ^ 53)
    (he : -1074 ≤ e) (j : ℕ) :
    Format.binary64.targetExponent (totalExponent (m * 2 ^ j) (e - j)) = e := by
  unfold Format.targetExponent totalExponent
  rw [log2_of_full hlow hhigh]
  change max (((52 + j : ℕ) : ℤ) + 1 + (e - j) - 53) (-1074) = e
  omega

theorem shiftToTargetExponent_of_full {m : ℕ} {e : ℤ} (hlow : 2 ^ 52 ≤ m) (hhigh : m < 2 ^ 53)
    (he : -1074 ≤ e) (j : ℕ) :
    shiftToTargetExponent Format.binary64 (m * 2 ^ j) (e - j) .exact = (⟨m, false, false⟩, e) := by
  unfold shiftToTargetExponent shiftToExponent
  dsimp only
  rw [targetExponent_of_full hlow hhigh he]
  have hamount : (e - (e - (j : ℤ))).toNat = j := by omega
  rw [hamount]
  refine Prod.ext (repeat_shiftRightOne m j) ?_
  change e - (j : ℤ) + j = e
  omega

/-- A number with a mantissa of full width is rounded to itself, however its mantissa is shifted. -/
theorem roundWithAccuracy_of_full {s : Sign} {m : ℕ} {e : ℤ} (hlow : 2 ^ 52 ≤ m)
    (hhigh : m < 2 ^ 53) (he : -1074 ≤ e) (j : ℕ) :
    roundWithAccuracy Format.binary64 s (m * 2 ^ j) (e - j) .exact =
      .finite s m e (by omega) := by
  have hagain := shiftToTargetExponent_of_full hlow hhigh he 0
  simp only [pow_zero, mul_one, Nat.cast_zero, sub_zero] at hagain
  unfold roundWithAccuracy
  rw [shiftToTargetExponent_of_full hlow hhigh he]
  dsimp only [ExtendedMantissa.roundedMantissa, ExtendedMantissa.accuracy,
    Accuracy.roundToNearestEven]
  rw [hagain]
  exact dif_neg (show m ≠ 0 by omega)

theorem exists_full {n : ℕ} (hpos : 0 < n) (hn : n < 2 ^ 53) :
    ∃ k ≤ 52, n.log2 + k = 52 ∧ 2 ^ 52 ≤ n * 2 ^ k ∧ n * 2 ^ k < 2 ^ 53 := by
  have hlog : n.log2 < 53 := (Nat.log2_lt hpos.ne').2 hn
  obtain ⟨hlow, hhigh⟩ := (Nat.log2_eq_iff hpos.ne').1 rfl
  have hpow : 0 < 2 ^ (52 - n.log2) := Nat.two_pow_pos _
  refine ⟨52 - n.log2, by omega, by omega, ?_, ?_⟩
  · calc 2 ^ 52 = 2 ^ n.log2 * 2 ^ (52 - n.log2) := by rw [← pow_add]; congr 1; omega
      _ ≤ n * 2 ^ (52 - n.log2) := Nat.mul_le_mul_right _ hlow
  · calc n * 2 ^ (52 - n.log2) < 2 ^ (n.log2 + 1) * 2 ^ (52 - n.log2) :=
        Nat.mul_lt_mul_of_pos_right hhigh hpow
      _ = 2 ^ 53 := by rw [← pow_add]; congr 1; omega

theorem ofNat_unpacked {n k : ℕ} (hlog : n.log2 + k = 52) (hlow : 2 ^ 52 ≤ n * 2 ^ k)
    (hhigh : n * 2 ^ k < 2 ^ 53) :
    UnpackedFloat.ofNat Format.binary64 n = .finite .positive (n * 2 ^ k) (-k) (by omega) := by
  have hpos : 0 < n := by
    rcases Nat.eq_zero_or_pos n with rfl | h
    · simp at hlow
    · exact h
  have htarget : Format.binary64.targetExponent (totalExponent n 0) = -k := by
    change max ((n.log2 : ℤ) + 1 + 0 - 53) (-1074) = -k
    omega
  have hround := roundWithAccuracy_of_full (s := .positive) (e := -k) hlow hhigh (by omega) 0
  rw [pow_zero, mul_one, Nat.cast_zero, sub_zero] at hround
  unfold UnpackedFloat.ofNat UnpackedFloat.ofInt UnpackedFloat.normalize
  have hcompare : compare (n : ℤ) 0 = .gt := Int.compare_eq_gt.2 (by omega)
  rw [hcompare]
  dsimp only [UnpackedFloat.round, decreaseExponent]
  rw [Int.toNat_natCast, htarget]
  have hamount : (0 - -(k : ℤ)).toNat = k := by omega
  rw [hamount, Nat.shiftLeft_eq, zero_sub]
  exact hround

end Rounding

theorem toNat_packComponents (s : Sign) (e : BitVec 11) (m : BitVec 52) :
    (packComponents Format.binary64 s e m).toNat =
      s.toBitVec.toNat * 2 ^ 63 + (e.toNat * 2 ^ 52 + m.toNat) := by
  unfold packComponents
  rw [BitVec.toNat_append, BitVec.toNat_append, ← Nat.shiftLeft_add_eq_or_of_lt e.isLt,
    ← Nat.shiftLeft_add_eq_or_of_lt m.isLt]
  simp only [Nat.shiftLeft_eq]
  omega

theorem toNat_signOf (negative : Bool) :
    (signOf negative).toBitVec.toNat = if negative then 1 else 0 := by
  cases negative <;> rfl

theorem decodeBits_of_fields {bits : UInt64} {negative : Bool} {b f : ℕ}
    (hbits : bits.toNat = (if negative then 1 else 0) * 2 ^ 63 + (b * 2 ^ 52 + f))
    (hb : 0 < b) (hlast : b < 2047) (hf : f < 2 ^ 52) :
    decodeBits bits = .finite negative (2 ^ 52 + f) (b - 1075) := by
  have hbiased : bits.toNat / 2 ^ 52 % 2 ^ 11 = b := by
    rw [hbits]
    split <;> omega
  have hfraction : bits.toNat % 2 ^ 52 = f := by
    rw [hbits]
    split <;> omega
  have hsign : decide (bits.toNat / 2 ^ 63 = 1) = negative := by
    rw [hbits]
    cases negative with
    | false => exact decide_eq_false (by simp; omega)
    | true => exact decide_eq_true (by simp; omega)
  unfold decodeBits
  simp only [toNat_biased, toNat_fraction, sign_eq_decide, hbiased, hfraction, hsign]
  rw [if_neg (by omega), if_neg (by omega)]
  rfl

theorem decode_pack_of_full (negative : Bool) {m : ℕ} {e : ℤ} (hlow : 2 ^ 52 ≤ m)
    (hhigh : m < 2 ^ 53) (helow : -1074 ≤ e) (hehigh : e ≤ 971) (hm : 0 < m) :
    decode (Float.ofModel (Float.Model.pack (.finite (signOf negative) m e hm))) =
      .finite negative m e := by
  obtain ⟨f, rfl⟩ : ∃ f : BitVec 52, m = 2 ^ 52 + f.toNat :=
    ⟨BitVec.ofNat 52 (m - 2 ^ 52), by rw [BitVec.toNat_ofNat]; omega⟩
  obtain ⟨b, rfl⟩ : ∃ b : BitVec 11, e = b.toNat - 1075 :=
    ⟨BitVec.ofNat 11 (e + 1075).toNat, by rw [BitVec.toNat_ofNat]; omega⟩
  apply decodeBits_of_fields _ (by omega) (by omega) (by omega)
  change (UnpackedFloat.pack Format.binary64 _).toNat = _
  rw [pack_normal (by omega) hm, toNat_packComponents, toNat_signOf]

theorem mul_one_of_full {x : Float} {m : ℕ} {e : ℤ} (h : decode x = .finite false m e)
    (hlow : 2 ^ 52 ≤ m) :
    decode (x * Float.ofBits 0x3FF0000000000000) = .finite false m e := by
  obtain ⟨hhigh, helow, hehigh, -⟩ := of_decodeBits_finite h
  have hone : decode (Float.ofBits 0x3FF0000000000000) = .finite false (2 ^ 52) (-52) := by
    decide
  have hm : 0 < m := by omega
  have hround := roundWithAccuracy_of_full (s := .positive) hlow (by omega) helow 52
  change decode (Float.ofModel (Float.Model.pack (UnpackedFloat.mul Format.binary64
    x.toModel.unpack (Float.ofBits 0x3FF0000000000000).toModel.unpack))) = _
  rw [unpack_of_decode h hm, unpack_of_decode hone (by norm_num)]
  change decode (Float.ofModel (Float.Model.pack (roundWithAccuracy Format.binary64
    .positive (m * 2 ^ 52) (e - (52 : ℕ)) .exact))) = _
  rw [hround]
  exact decode_pack_of_full false hlow (by omega) helow hehigh hm

theorem decode_ofNat {n : ℕ} (hpos : 0 < n) (hn : n < 2 ^ 53) :
    ∃ k : ℕ, 2 ^ 52 ≤ n * 2 ^ k ∧ decode (Float.ofNat n) = .finite false (n * 2 ^ k) (-k) := by
  obtain ⟨k, hk, hlog, hlow, hhigh⟩ := exists_full hpos hn
  have hword : n.toUInt64.toNat = n := by
    simpa using Nat.mod_eq_of_lt (by omega : n < 2 ^ 64)
  have hdecode : decode n.toUInt64.toFloat = .finite false (n * 2 ^ k) (-k) := by
    change decode (Float.ofModel (Float.Model.pack
      (UnpackedFloat.ofNat Format.binary64 n.toUInt64.toNat))) = _
    rw [hword, ofNat_unpacked hlog hlow hhigh]
    exact decode_pack_of_full false hlow hhigh (by omega) (by omega) _
  refine ⟨k, hlow, ?_⟩
  change decode (Float.ofScientific n false 0) = _
  unfold Float.ofScientific
  rw [dif_pos ⟨hn, by omega⟩]
  exact mul_one_of_full hdecode hlow

theorem value?_of_decode {x : Float} {negative : Bool} {m : ℕ} {e : ℤ}
    (h : decode x = .finite negative m e) :
    value? x = some ((if negative then -1 else 1) * ((m : ℚ) * 2 ^ e)) := by
  unfold value?
  rw [h]

theorem value?_eq_some {x : Float} {v : ℚ} (h : value? x = some v) :
    ∃ negative m e, decode x = .finite negative m e ∧
      v = (if negative then -1 else 1) * ((m : ℚ) * 2 ^ e) := by
  unfold value? at h
  cases hx : decode x with
  | nan => rw [hx] at h; cases h
  | infinite negative => rw [hx] at h; cases h
  | finite negative m e =>
    rw [hx] at h
    exact ⟨negative, m, e, rfl, (Option.some.inj h).symm⟩

theorem scaled_value (n k : ℕ) : ((n * 2 ^ k : ℕ) : ℚ) * 2 ^ (-k : ℤ) = n := by
  push_cast
  rw [mul_assoc, ← zpow_natCast, ← zpow_add₀ (by norm_num), add_neg_cancel, zpow_zero, mul_one]

theorem value?_ofNat {n : ℕ} (hn : n < 2 ^ 53) : value? (Float.ofNat n) = some (n : ℚ) := by
  rcases Nat.eq_zero_or_pos n with rfl | hpos
  · have hzero : decode (Float.ofNat 0) = .finite false 0 (-1074) := by decide
    rw [value?_of_decode hzero]
    simp
  · obtain ⟨k, -, h⟩ := decode_ofNat hpos hn
    rw [value?_of_decode h, scaled_value]
    simp

theorem value?_neg_ofNat {n : ℕ} (hpos : 0 < n) (hn : n < 2 ^ 53) :
    value? (Float.neg (Float.ofNat n)) = some (-n : ℚ) := by
  obtain ⟨k, hlow, h⟩ := decode_ofNat hpos hn
  obtain ⟨hhigh, helow, hehigh, -⟩ := of_decodeBits_finite h
  have hneg : decode (Float.neg (Float.ofNat n)) = .finite true (n * 2 ^ k) (-k) := by
    change decode (Float.ofModel (Float.Model.pack (Float.ofNat n).toModel.unpack.neg)) = _
    rw [unpack_of_decode h (by omega)]
    exact decode_pack_of_full true hlow (by omega) helow hehigh (by omega)
  rw [value?_of_decode hneg, scaled_value]
  simp

theorem value?_ofInt {n : ℤ} (h : |n| < 2 ^ 53) : value? (Float.ofInt n) = some (n : ℚ) := by
  rw [abs_lt] at h
  cases n with
  | ofNat n =>
    rw [Int.ofNat_eq_natCast] at h
    rw [Float.ofInt, value?_ofNat (by omega)]
    rfl
  | negSucc n =>
    rw [Int.negSucc_eq] at h
    rw [Float.ofInt, value?_neg_ofNat (Nat.succ_pos n) (by omega), Int.negSucc_eq]
    push_cast
    rfl

theorem truncated_of_nan {x : Float} (h : decode x = .nan) : truncated x = x := by
  unfold truncated
  rw [h]

theorem truncated_of_infinite {x : Float} {negative : Bool} (h : decode x = .infinite negative) :
    truncated x = x := by
  unfold truncated
  rw [h]

theorem value?_neg_natural {n : ℕ} (hn : n < 2 ^ 53) :
    value? (Float.ofNat n).neg = some (-n : ℚ) := by
  rcases Nat.eq_zero_or_pos n with rfl | hpos
  · have hzero : decode (Float.ofNat 0).neg = .finite true 0 (-1074) := by decide
    rw [value?_of_decode hzero]
    simp
  · exact value?_neg_ofNat hpos hn

theorem value?_truncated {x : Float} {v : ℚ} (h : value? x = some v) :
    value? (truncated x) = some (towardZero v : ℚ) := by
  obtain ⟨negative, m, e, hx, rfl⟩ := value?_eq_some h
  obtain ⟨hlt, -⟩ := of_decodeBits_finite hx
  rw [← integerPart_eq]
  unfold truncated
  rw [hx]
  dsimp only
  split
  next he =>
    have hwhole : m >>> (-e).toNat < 2 ^ 53 := (Nat.shiftRight_le m _).trans_lt hlt
    have hleft : m <<< e.toNat = m := by
      rw [Int.toNat_of_nonpos he.le]
      rfl
    unfold integerPart
    dsimp only
    rw [hleft]
    cases negative with
    | false => exact (value?_ofNat hwhole).trans (congrArg some (Int.cast_natCast _).symm)
    | true =>
      refine (value?_neg_natural hwhole).trans (congrArg some ?_)
      rw [if_pos rfl, Int.cast_neg]
      exact congrArg Neg.neg (Int.cast_natCast _).symm
  next he =>
    obtain ⟨k, rfl⟩ : ∃ k : ℕ, e = k := ⟨e.toNat, by omega⟩
    rw [h, integerPart_eq]
    congr 1
    have hinteger : ((if negative = true then -1 else 1) * ((m : ℚ) * 2 ^ (k : ℤ))) =
        (((if negative = true then -1 else 1) * ((m : ℤ) * 2 ^ k) : ℤ) : ℚ) := by
      cases negative <;> simp
    rw [hinteger, towardZero_intCast]

end ScriptEngine.Numeric
