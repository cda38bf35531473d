import ScriptEngine.Numeric.Decimal
import ScriptEngine.Numeric.Digits

/-!
# Numbers that are read

What is read from the digits of a number is a number: it is equal to itself. Decimals are packed
from bits no larger than those of infinity. Digits of a radix are pushed behind a number by
multiplying it with the radix, which is neither zero nor infinite, and adding a finite number.
-/

namespace ScriptEngine.Numeric

open Float.Model

def IsNumber (x : Float) : Prop :=
  x.toModel.unpack ≠ .notANumber

theorem beq_self_of_isNumber {x : Float} (h : IsNumber x) : (x == x) = true := by
  unfold IsNumber at h
  change x.toModel.unpack.beq x.toModel.unpack = true
  cases hx : x.toModel.unpack with
  | notANumber => exact absurd hx h
  | infinity s => cases s <;> rfl
  | zero s => rfl
  | finite s m e hm =>
    have hcompare : (compare e e).then (compare m m) = .eq := by simp
    cases s with
    | positive =>
      change (some ((compare e e).then (compare m m)) == some .eq) = true
      rw [hcompare]
      rfl
    | negative =>
      change (some ((compare e e).then (compare m m)).swap == some .eq) = true
      rw [hcompare]
      rfl

theorem of_unpack_eq_notANumber {b : BitVec Format.binary64.numBits}
    (h : UnpackedFloat.unpack Format.binary64 b = .notANumber) :
    UnpackedFloat.unpackExponent b = -1#_ ∧ UnpackedFloat.unpackMantissa b ≠ 0#_ := by
  unfold UnpackedFloat.unpack at h
  dsimp only at h
  by_cases hexponent : UnpackedFloat.unpackExponent b = -1#11
  · rw [if_pos hexponent] at h
    by_cases hmantissa : UnpackedFloat.unpackMantissa b = 0#52
    · rw [if_pos hmantissa] at h
      cases h
    · exact ⟨hexponent, hmantissa⟩
  · rw [if_neg hexponent] at h
    by_cases hzero : UnpackedFloat.unpackExponent b = 0#11
    · rw [if_pos hzero] at h
      by_cases hmantissa : UnpackedFloat.unpackMantissa b = 0#52
      · rw [dif_pos hmantissa] at h
        cases h
      · rw [dif_neg hmantissa] at h
        cases h
    · rw [if_neg hzero] at h
      cases h

theorem unpack_pack_ne {f : UnpackedFloat} (h : f ≠ .notANumber) :
    UnpackedFloat.unpack Format.binary64 (UnpackedFloat.pack Format.binary64 f) ≠ .notANumber := by
  intro hnan
  obtain ⟨hexponent, hmantissa⟩ := of_unpack_eq_notANumber hnan
  revert hexponent hmantissa
  fun_cases UnpackedFloat.pack with
  | case1 => exact absurd rfl h
  | case2 s => simp [UnpackedFloat.packedInfinity]
  | case3 s => simp [UnpackedFloat.packedZero]
  | case4 s m e hm biased hlarge => simp [UnpackedFloat.packedInfinity]
  | case5 s m e hm bits biased hsmall hnormal =>
    rw [UnpackedFloat.unpackExponent_packComponents]
    intro hexponent
    have hbiased : biased % 2 ^ 11 = 2 ^ 11 - 1 := by
      simpa using congrArg BitVec.toNat hexponent
    have hbound : ¬ 2 ^ 11 ≤ biased + 1 := hsmall
    omega
  | case6 s m e hm bits biased hsmall hsubnormal =>
    rw [UnpackedFloat.unpackExponent_packComponents]
    intro hexponent
    exact absurd hexponent (by decide)

theorem roundWithAccuracy_ne (spec : Format) (s : UnpackedFloat.Sign) (m : Nat) (e : Int)
    (a : UnpackedFloat.Accuracy) :
    UnpackedFloat.roundWithAccuracy spec s m e a ≠ .notANumber := by
  let shifted := UnpackedFloat.shiftToTargetExponent spec m e a
  let rounded := UnpackedFloat.shiftToTargetExponent spec shifted.1.roundedMantissa shifted.2 .exact
  unfold UnpackedFloat.roundWithAccuracy
  dsimp only
  by_cases hzero : rounded.1.mantissa = 0
  · rw [dif_pos hzero]
    exact UnpackedFloat.noConfusion
  · rw [dif_neg hzero]
    exact UnpackedFloat.noConfusion

theorem normalize_ne (spec : Format) (m e : Int) (s : UnpackedFloat.Sign) :
    UnpackedFloat.normalize spec m e s ≠ .notANumber := by
  unfold UnpackedFloat.normalize
  split
  · exact roundWithAccuracy_ne _ _ _ _ _
  · exact UnpackedFloat.noConfusion
  · exact roundWithAccuracy_ne _ _ _ _ _

theorem IsNumber.mul {x y : Float} (hx : IsNumber x) (hy : y.isFinite = true)
    (hzero : (y == 0) = false) : IsNumber (x * y) := by
  refine unpack_pack_ne (?_ : UnpackedFloat.mul _ x.toModel.unpack y.toModel.unpack ≠ _)
  change y.toModel.unpack.isFinite = true at hy
  change y.toModel.unpack.beq (.zero .positive) = false at hzero
  unfold IsNumber at hx
  cases hv : y.toModel.unpack with
  | notANumber => rw [hv] at hy; cases hy
  | infinity s => rw [hv] at hy; cases hy
  | zero s => rw [hv] at hzero; cases s <;> cases hzero
  | finite s m e hm =>
    cases hu : x.toModel.unpack with
    | notANumber => exact absurd hu hx
    | infinity s => exact UnpackedFloat.noConfusion
    | zero s => exact UnpackedFloat.noConfusion
    | finite s m e hm => exact roundWithAccuracy_ne _ _ _ _ _

theorem IsNumber.add {x y : Float} (hx : IsNumber x) (hy : y.isFinite = true) :
    IsNumber (x + y) := by
  refine unpack_pack_ne (?_ : UnpackedFloat.add _ x.toModel.unpack y.toModel.unpack ≠ _)
  change y.toModel.unpack.isFinite = true at hy
  unfold IsNumber at hx
  cases hv : y.toModel.unpack with
  | notANumber => rw [hv] at hy; cases hy
  | infinity s => rw [hv] at hy; cases hy
  | zero s =>
    cases hu : x.toModel.unpack with
    | notANumber => exact absurd hu hx
    | zero t => cases s <;> cases t <;> exact UnpackedFloat.noConfusion
    | infinity t => exact UnpackedFloat.noConfusion
    | finite t m e hm => exact UnpackedFloat.noConfusion
  | finite s m e hm =>
    cases hu : x.toModel.unpack with
    | notANumber => exact absurd hu hx
    | zero t => exact UnpackedFloat.noConfusion
    | infinity t => exact UnpackedFloat.noConfusion
    | finite t m' e' hm' => exact normalize_ne _ _ _ _

theorem isNumber_ofBits {n : Nat} (h : n ≤ 2047 * 0x10000000000000) :
    IsNumber (Float.ofBits n.toUInt64) := by
  refine unpack_pack_ne fun hnan => ?_
  obtain ⟨hexponent, hmantissa⟩ := of_unpack_eq_notANumber hnan
  have hsize : n % 18446744073709551616 = n := Nat.mod_eq_of_lt (by omega)
  have he : n >>> 52 % 2 ^ 11 = 2 ^ 11 - 1 := by
    have := congrArg BitVec.toNat hexponent
    simpa [UnpackedFloat.unpackExponent, hsize] using this
  have hm : n % 2 ^ 52 ≠ 0 := by
    intro hzero
    refine hmantissa (BitVec.eq_of_toNat_eq ?_)
    simpa [UnpackedFloat.unpackMantissa, hsize] using hzero
  rw [Nat.shiftRight_eq_div_pow] at he
  omega

theorem magnitudeBits_le (num den : Nat) :
    magnitudeBits num den ≤ 2047 * 0x10000000000000 := by
  unfold magnitudeBits
  split
  · omega
  · exact Nat.min_le_right ..

theorem isNumber_toFloat (d : Decimal) : IsNumber (d.toFloat false) := by
  unfold Decimal.toFloat
  dsimp only
  split
  next => exact isNumber_ofBits (Nat.zero_le _)
  next =>
    split
    next => exact isNumber_ofBits (Nat.le_refl (2047 * 0x10000000000000))
    next => exact isNumber_ofBits (magnitudeBits_le ..)

theorem toLower_of_isDigit {c : Char} (hc : isDigit c = true) : c.toLower = c := by
  simp only [isDigit, Bool.and_eq_true, decide_eq_true_eq] at hc
  have hupper : ¬(c ≥ 'A' ∧ c ≤ 'Z') := by
    rintro ⟨hle, -⟩
    exact absurd (Char.le_trans hle hc.2) (by decide)
  unfold Char.toLower
  exact dif_neg hupper

theorem splitSign_of_isDigit {c : Char} (hc : isDigit c = true) (cs : List Char) :
    splitSign (c :: cs) = (false, c :: cs) := by
  unfold splitSign
  split
  next heq => cases heq; cases hc
  next heq => cases heq; cases hc
  next => rfl

theorem specialOf?_of_head {c : Char} (hi : c.toLower ≠ 'i') (hn : c.toLower ≠ 'n') (cs : List Char)
    (negative : Bool) : specialOf? negative ((c :: cs).map Char.toLower) = none := by
  have hwords : ∀ w ∈ ["inf".toList, "infinity".toList, "nan".toList],
      w.head? = some 'i' ∨ w.head? = some 'n' := by decide
  have hne : ∀ w ∈ ["inf".toList, "infinity".toList, "nan".toList],
      (c :: cs).map Char.toLower ≠ w := by
    intro w hw heq
    have hhead := hwords w hw
    rw [← heq] at hhead
    simp [hi, hn] at hhead
  simp only [List.forall_mem_cons] at hne
  simp only [specialOf?, hne, or_self, if_false]

theorem specialOf?_of_isDigit {c : Char} (hc : isDigit c = true) (cs : List Char)
    (negative : Bool) :
    specialOf? negative ((c :: cs).map Char.toLower) = none := by
  apply specialOf?_of_head <;> (rw [toLower_of_isDigit hc]; rintro rfl; cases hc)

theorem isNumber_of_readFloat? {c : Char} {cs : List Char} {x : Float} (hc : isDigit c = true)
    (h : readFloat? (c :: cs) = some x) : IsNumber x := by
  unfold readFloat? at h
  rw [splitSign_of_isDigit hc] at h
  dsimp only at h
  rw [specialOf?_of_isDigit hc] at h
  obtain ⟨d, -, rfl⟩ := Option.map_eq_some_iff.mp h
  exact isNumber_toFloat d

theorem isNumber_zero : IsNumber 0 := by
  have hzero : (0 : Float).toModel.unpack.isNaN = false := by decide
  intro hnan
  rw [hnan] at hzero
  cases hzero

theorem IsNumber.pushDigit {radix digit : Nat} {x : Float} (hx : IsNumber x)
    (hradix : radix ∈ [2, 8, 16]) (hdigit : digit < radix) :
    IsNumber (pushDigit radix x digit) := by
  have hfinite : ∀ r ∈ [2, 8, 16], (Float.ofNat r).isFinite = true ∧ (Float.ofNat r == 0) = false ∧
      ∀ d < r, (Float.ofNat d).isFinite = true := by decide
  obtain ⟨hr, hzero, hd⟩ := hfinite radix hradix
  exact (hx.mul hr hzero).add (hd digit hdigit)

theorem IsNumber.pushDigits {radix : Nat} {cs : List Char} {x y : Float} (hx : IsNumber x)
    (hradix : radix ∈ [2, 8, 16])
    (h : cs.foldlM (fun acc c => (radixDigit? radix c).map (Numeric.pushDigit radix acc)) x =
      some y) :
    IsNumber y := by
  induction cs generalizing x with
  | nil =>
    cases h
    exact hx
  | cons c cs ih =>
    rw [List.foldlM_cons] at h
    obtain ⟨next, hnext, hrest⟩ := Option.bind_eq_some_iff.mp h
    obtain ⟨digit, hdigit, rfl⟩ := Option.map_eq_some_iff.mp hnext
    have hlt : digit < radix := by
      simpa using (Option.filter_eq_some_iff.mp hdigit).2
    exact ih (hx.pushDigit hradix hlt) hrest

theorem isNumber_of_readRadix? {radix : Nat} {cs : List Char} {x : Float}
    (hradix : radix ∈ [2, 8, 16]) (h : readRadix? radix cs = some x) : IsNumber x :=
  isNumber_zero.pushDigits hradix h

end ScriptEngine.Numeric
