import ScriptEngine.Proofs.Numeric.Literals
import ScriptEngine.Proofs.Numeric.Rounding

/-!
# The bits of a double

Unpacking a valid pattern of bits and packing it again changes nothing, so a double is what its bits
make. The bits below the sign of a finite double are `(exponent + 1074) * 2 ^ 52 + mantissa`, with
and without an implicit bit, and `pack` puts the double together from them.
-/

namespace ScriptEngine.Numeric

open Float.Model UnpackedFloat

section Packing

variable {b : BitVec Format.binary64.numBits}

theorem toBitVec_ofBitVec (s : BitVec 1) : (Sign.ofBitVec s).toBitVec = s := by
  revert s
  decide

theorem toNat_unpackSign (b : BitVec Format.binary64.numBits) :
    (unpackSign b).toNat = b.toNat / 2 ^ 63 % 2 := by
  change b.toNat >>> 63 % 2 ^ 1 = _
  rw [Nat.shiftRight_eq_div_pow]

theorem toNat_unpackExponent (b : BitVec Format.binary64.numBits) :
    (unpackExponent b).toNat = b.toNat / 2 ^ 52 % 2 ^ 11 := by
  change b.toNat >>> 52 % 2 ^ 11 = _
  rw [Nat.shiftRight_eq_div_pow]

theorem toNat_unpackMantissa (b : BitVec Format.binary64.numBits) :
    (unpackMantissa b).toNat = b.toNat % 2 ^ 52 :=
  rfl

theorem packComponents_unpack {e : BitVec 11} {m : BitVec 52} (he : unpackExponent b = e)
    (hm : unpackMantissa b = m) :
    packComponents Format.binary64 (Sign.ofBitVec (unpackSign b)) e m = b := by
  subst he hm
  have hsize : b.toNat < 2 ^ 64 := b.isLt
  apply BitVec.eq_of_toNat_eq
  unfold packComponents
  rw [toBitVec_ofBitVec, BitVec.toNat_append, BitVec.toNat_append,
    ← Nat.shiftLeft_add_eq_or_of_lt (unpackExponent b).isLt,
    ← Nat.shiftLeft_add_eq_or_of_lt (unpackMantissa b).isLt, toNat_unpackSign,
    toNat_unpackExponent, toNat_unpackMantissa]
  simp only [Nat.shiftLeft_eq]
  omega

theorem toNat_append_one (m : BitVec 52) : (1#1 ++ m).toNat = 2 ^ 52 + m.toNat := by
  rw [BitVec.toNat_append, ← Nat.shiftLeft_add_eq_or_of_lt m.isLt]
  rfl

theorem finite_congr {s : Sign} {m m' : ℕ} {e : ℤ} (h : m = m') (hm : 0 < m) :
    UnpackedFloat.finite s m e hm = .finite s m' e (h ▸ hm) := by
  subst h
  rfl

theorem pack_subnormal {s : Sign} {m : ℕ} (hm : 0 < m) (hlt : m < 2 ^ 52) :
    UnpackedFloat.pack Format.binary64 (.finite s m (-1074) hm) =
      packComponents Format.binary64 s 0#11 (BitVec.ofNat 52 m) := by
  have hlog : m.log2 < 52 := (Nat.log2_lt hm.ne').2 hlt
  unfold UnpackedFloat.pack
  dsimp only
  rw [if_neg (by decide), if_neg]
  change m.log2 + 1 ≠ 53
  omega

theorem pack_normal {s : Sign} {e : BitVec 11} {m : BitVec 52} (he : e.toNat ≠ 2 ^ 11 - 1)
    (hm : 0 < 2 ^ 52 + m.toNat) :
    UnpackedFloat.pack Format.binary64 (.finite s (2 ^ 52 + m.toNat) (e.toNat - 1075) hm) =
      packComponents Format.binary64 s e m := by
  have helt : e.toNat < 2 ^ 11 := e.isLt
  have hmlt : m.toNat < 2 ^ 52 := m.isLt
  have hlog : (2 ^ 52 + m.toNat).log2 = 52 := by
    rw [Nat.log2_eq_iff hm.ne']
    omega
  have hbiased : ((e.toNat : ℤ) - 1075 + Format.binary64.exponentBias +
      Format.binary64.mantissaBitsWithoutImplicit).toNat = e.toNat := by
    change ((e.toNat : ℤ) - 1075 + 1023 + 52).toNat = e.toNat
    omega
  unfold UnpackedFloat.pack
  dsimp only
  rw [hbiased, if_neg (show ¬ 2 ^ 11 ≤ e.toNat + 1 by omega), if_pos (by rw [hlog]; rfl)]
  congr 1
  · exact BitVec.ofNat_toNat _ e
  · apply BitVec.eq_of_toNat_eq
    rw [BitVec.toNat_ofNat]
    omega

theorem pack_unpack (hb : Format.binary64.Valid b) :
    UnpackedFloat.pack Format.binary64 (UnpackedFloat.unpack Format.binary64 b) = b := by
  unfold UnpackedFloat.unpack
  dsimp only
  by_cases hlast : unpackExponent b = -1#11
  · rw [if_pos hlast]
    by_cases hzero : unpackMantissa b = 0#52
    · rw [if_pos hzero]
      exact packComponents_unpack hlast hzero
    · rw [if_neg hzero]
      exact (hb.eq_packedNaN hlast hzero).symm
  · rw [if_neg hlast]
    by_cases hfirst : unpackExponent b = 0#11
    · rw [if_pos hfirst]
      by_cases hzero : unpackMantissa b = 0#52
      · rw [dif_pos hzero]
        exact packComponents_unpack hfirst hzero
      · rw [dif_neg hzero]
        have hexponent : ((unpackExponent b).toNat : ℤ) -
            (Format.binary64.exponentBias + (52 : ℕ)) + 1 = -1074 := by
          rw [hfirst]
          rfl
        rw [hexponent, pack_subnormal _ (unpackMantissa b).isLt]
        apply packComponents_unpack hfirst
        rw [BitVec.ofNat_toNat, BitVec.setWidth_eq]
    · rw [if_neg hfirst]
      have hne : (unpackExponent b).toNat ≠ 2 ^ 11 - 1 := by
        intro h
        exact hlast (BitVec.eq_of_toNat_eq h)
      rw [finite_congr (toNat_append_one _)]
      exact (pack_normal hne _).trans (packComponents_unpack rfl rfl)

end Packing

theorem ofBits_toBits (x : Float) : Float.ofBits x.toBits = x := by
  obtain ⟨⟨bits, hvalid⟩⟩ := x
  have hbits : UInt64.ofBitVec (UnpackedFloat.pack Format.binary64
      (UnpackedFloat.unpack Format.binary64 bits.toBitVec)) = bits := by
    rw [pack_unpack hvalid]
  change Float.ofModel (Float.Model.pack (UnpackedFloat.unpack Format.binary64 bits.toBitVec)) = _
  exact congrArg Float.ofModel ((Float.Model.mk.injEq ..).mpr hbits)

theorem toNat_shiftRight (bits : UInt64) : (bits >>> 63).toNat = bits.toNat / 2 ^ 63 := by
  simp [Nat.shiftRight_eq_div_pow]

theorem toNat_biased (bits : UInt64) :
    ((bits >>> 52) &&& 0x7FF).toNat = bits.toNat / 2 ^ 52 % 2 ^ 11 := by
  have hmask : (0x7FF : UInt64).toNat = 2 ^ 11 - 1 := rfl
  rw [UInt64.toNat_and, hmask, Nat.and_two_pow_sub_one_eq_mod]
  simp [Nat.shiftRight_eq_div_pow]

theorem toNat_fraction (bits : UInt64) :
    (bits &&& 0xFFFFFFFFFFFFF).toNat = bits.toNat % 2 ^ 52 := by
  have hmask : (0xFFFFFFFFFFFFF : UInt64).toNat = 2 ^ 52 - 1 := rfl
  rw [UInt64.toNat_and, hmask, Nat.and_two_pow_sub_one_eq_mod]

theorem sign_eq_decide (bits : UInt64) :
    (bits >>> 63 == 1) = decide (bits.toNat / 2 ^ 63 = 1) := by
  rw [← toNat_shiftRight, Bool.eq_iff_iff, beq_iff_eq, decide_eq_true_iff, ← UInt64.toNat_inj]
  rfl

theorem bits_fields (bits : UInt64) : bits.toNat < 2 ^ 64 ∧
    bits.toNat / 2 ^ 52 / 2 ^ 11 = bits.toNat / 2 ^ 63 ∧ bits.toNat / 2 ^ 63 ≤ 1 := by
  have hsize : bits.toNat < 2 ^ 64 := bits.toNat_lt
  refine ⟨hsize, ?_, by omega⟩
  rw [Nat.div_div_eq_div_mul]
  rfl

theorem of_decodeBits_finite {bits : UInt64} {negative : Bool} {m : ℕ} {e : ℤ}
    (h : decodeBits bits = .finite negative m e) :
    m < 0x20000000000000 ∧ -1074 ≤ e ∧ e ≤ 971 ∧ (e = -1074 ∨ 0x10000000000000 ≤ m) ∧
      bits.toNat = (if negative then 2 ^ 63 else 0) +
        ((e + 1074).toNat * 0x10000000000000 + m) := by
  obtain ⟨hsize, hfields, hbit⟩ := bits_fields bits
  unfold decodeBits at h
  simp only [toNat_biased, toNat_fraction, sign_eq_decide] at h
  split at h
  next => split at h <;> cases h
  next hlast =>
    split at h
    next hfirst =>
      cases h
      refine ⟨by omega, by omega, by omega, .inl rfl, ?_⟩
      simp only [decide_eq_true_eq]
      split <;> omega
    next hfirst =>
      cases h
      simp only [decide_eq_true_eq, Int.ofNat_eq_natCast]
      split <;> omega

theorem toNat_of_decodeBits_infinite {bits : UInt64} {negative : Bool}
    (h : decodeBits bits = .infinite negative) :
    bits.toNat = (if negative then 2 ^ 63 else 0) + 2047 * 0x10000000000000 := by
  obtain ⟨hsize, hfields, hbit⟩ := bits_fields bits
  unfold decodeBits at h
  simp only [toNat_biased, toNat_fraction, sign_eq_decide] at h
  split at h
  next hlast =>
    split at h
    next hzero =>
      cases h
      simp only [decide_eq_true_eq]
      split <;> omega
    next => cases h
  next => split at h <;> cases h

theorem isPositiveDouble_of_decode {x : Float} {negative : Bool} {m : ℕ} {e : ℤ}
    (h : decode x = .finite negative m e) (hm : m ≠ 0) : IsPositiveDouble m e := by
  obtain ⟨hlt, hsmallest, hlargest, hfull, -⟩ := of_decodeBits_finite h
  exact ⟨Nat.pos_of_ne_zero hm, hlt, hsmallest, hlargest, hfull⟩

theorem pack_of_decode {x : Float} {negative : Bool} {m : ℕ} {e : ℤ}
    (h : decode x = .finite negative m e) :
    pack negative ((e + 1074).toNat * 0x10000000000000 + m) = x := by
  obtain ⟨hlt, hsmallest, hlargest, -, hbits⟩ := of_decodeBits_finite h
  rw [← ofBits_toBits x]
  generalize hn : (e + 1074).toNat * 0x10000000000000 + m = n at hbits
  have hsmall : n < 2 ^ 63 := by omega
  cases negative with
  | false =>
    apply congrArg Float.ofBits
    rw [← UInt64.toNat_inj, hbits]
    simpa using Nat.mod_eq_of_lt (by omega : n < 2 ^ 64)
  | true =>
    apply congrArg Float.ofBits
    rw [← UInt64.toNat_inj, hbits, UInt64.toNat_or]
    have hword : n.toUInt64.toNat = n := by
      simpa using Nat.mod_eq_of_lt (by omega : n < 2 ^ 64)
    rw [hword]
    exact (Nat.two_pow_add_eq_or_of_lt hsmall 1).symm

def signOf (negative : Bool) : Sign :=
  if negative then .negative else .positive

theorem sign_of_bits {bits : UInt64} {b : BitVec Format.binary64.numBits}
    (hb : bits.toNat = b.toNat) :
    Sign.ofBitVec (unpackSign b) = signOf (bits >>> 63 == 1) := by
  have hsize : bits.toNat < 2 ^ 64 := bits.toNat_lt
  have hbit := toNat_unpackSign b
  have hshift := toNat_shiftRight bits
  rw [← hb] at hbit
  unfold Sign.ofBitVec signOf
  by_cases hone : bits.toNat / 2 ^ 63 = 1
  · rw [if_neg, if_pos]
    · rw [beq_iff_eq, ← UInt64.toNat_inj, hshift, hone]
      rfl
    · intro hzero
      rw [hzero, hone] at hbit
      cases hbit
  · rw [if_pos, if_neg]
    · rw [beq_iff_eq, ← UInt64.toNat_inj, hshift]
      exact hone
    · apply BitVec.eq_of_toNat_eq
      change (unpackSign b).toNat = 0
      omega

theorem unpack_of_decode {x : Float} {negative : Bool} {m : ℕ} {e : ℤ}
    (h : decode x = .finite negative m e) (hm : 0 < m) :
    x.toModel.unpack = .finite (signOf negative) m e hm := by
  have hexponent := toNat_unpackExponent x.toBits.toBitVec
  have hmantissa := toNat_unpackMantissa x.toBits.toBitVec
  change _ = x.toBits.toNat / 2 ^ 52 % 2 ^ 11 at hexponent
  change _ = x.toBits.toNat % 2 ^ 52 at hmantissa
  unfold decode decodeBits at h
  simp only [toNat_biased, toNat_fraction, ← hexponent, ← hmantissa] at h
  change UnpackedFloat.unpack Format.binary64 x.toBits.toBitVec = _
  unfold UnpackedFloat.unpack
  dsimp only
  have hsign : Sign.ofBitVec (@unpackSign Format.binary64 x.toBits.toBitVec) =
      signOf (x.toBits >>> 63 == 1) := sign_of_bits rfl
  rw [hsign]
  split at h
  next => split at h <;> cases h
  next hlast =>
    rw [if_neg (fun heq => hlast (by rw [heq]; rfl))]
    split at h
    next hfirst =>
      cases h
      rw [if_pos (BitVec.eq_of_toNat_eq hfirst), dif_neg]
      · congr 1
        rw [hfirst]
        rfl
      · intro hzero
        rw [hzero] at hm
        cases hm
    next hfirst =>
      cases h
      rw [if_neg (fun heq => hfirst (by rw [heq]; rfl))]
      rw [finite_congr (toNat_append_one _)]
      rfl

theorem isNaN_iff {x : Float} : isNaN x = true ↔ decode x = .nan := by
  unfold isNaN
  split
  next h => exact iff_of_true rfl h
  next h => exact iff_of_false Bool.false_ne_true h

theorem isNaN_of_isNumber {x : Float} (h : IsNumber x) : isNaN x = false := by
  have hexponent := toNat_unpackExponent x.toBits.toBitVec
  have hmantissa := toNat_unpackMantissa x.toBits.toBitVec
  change _ = x.toBits.toNat / 2 ^ 52 % 2 ^ 11 at hexponent
  change _ = x.toBits.toNat % 2 ^ 52 at hmantissa
  cases hdecode : decode x with
  | nan =>
    refine absurd ?_ h
    unfold decode decodeBits at hdecode
    simp only [toNat_biased, toNat_fraction, ← hexponent, ← hmantissa] at hdecode
    split at hdecode
    next hlast =>
      split at hdecode
      next => cases hdecode
      next hfraction =>
        change UnpackedFloat.unpack Format.binary64 x.toBits.toBitVec = _
        unfold UnpackedFloat.unpack
        dsimp only
        rw [if_pos (BitVec.eq_of_toNat_eq hlast), if_neg]
        intro hzero
        rw [hzero] at hfraction
        exact hfraction rfl
    next => split at hdecode <;> cases hdecode
  | infinite negative => simp only [isNaN, hdecode]
  | finite negative m e => simp only [isNaN, hdecode]

theorem compare_swap (a b : UnpackedFloat) : a.compare b = (b.compare a).map Ordering.swap := by
  cases a with
  | notANumber => cases b <;> rfl
  | infinity s =>
    cases b with
    | notANumber => cases s <;> rfl
    | infinity t => cases s <;> cases t <;> rfl
    | zero t => cases s <;> rfl
    | finite t n f k => cases s <;> cases t <;> rfl
  | zero s =>
    cases b with
    | notANumber => rfl
    | infinity t => cases t <;> rfl
    | zero t => rfl
    | finite t n f k => cases t <;> rfl
  | finite s m e h =>
    cases b with
    | notANumber => cases s <;> rfl
    | infinity t => cases s <;> cases t <;> rfl
    | zero t => cases s <;> rfl
    | finite t n f k =>
      have hswap : (compare e f).then (compare m n) =
          ((compare f e).then (compare n m)).swap := by
        rw [Ordering.swap_then, Int.compare_swap, Nat.compare_swap]
      cases s <;> cases t
      · exact congrArg some (congrArg Ordering.swap hswap)
      · rfl
      · rfl
      · exact congrArg some hswap

theorem beq_comm (x y : Float) : (x == y) = (y == x) := by
  change (x.toModel.unpack.compare y.toModel.unpack == some .eq) =
    (y.toModel.unpack.compare x.toModel.unpack == some .eq)
  rw [compare_swap]
  cases y.toModel.unpack.compare x.toModel.unpack with
  | none => rfl
  | some o => cases o <;> rfl

end ScriptEngine.Numeric
