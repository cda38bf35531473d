import ScriptEngine.Proofs.Numeric.ExactValues

/-!
# Comparing, adding and casting doubles

Finite doubles are compared by their values. A sum of two whole doubles that is below `2 ^ 53` in
magnitude is exact, and a negative sum is rounded to no positive number. The cast to a word takes
the integer part and keeps it within the word.
-/

namespace ScriptEngine.Numeric

open Float.Model UnpackedFloat

theorem unpack_of_decode_zero {x : Float} {negative : Bool} {e : ℤ}
    (h : decode x = .finite negative 0 e) : x.toModel.unpack = .zero (signOf negative) := by
  obtain ⟨-, -, -, hfull, -⟩ := of_decodeBits_finite h
  obtain rfl : e = -1074 := hfull.resolve_right (by norm_num)
  rw [← pack_of_decode h]
  cases negative with
  | false => rfl
  | true => rfl

def signedValue (s : Sign) (m : ℕ) (e : ℤ) : ℚ :=
  s.apply m * 2 ^ e

theorem signedValue_pos {m : ℕ} (hm : 0 < m) (e : ℤ) : 0 < signedValue .positive m e := by
  change (0 : ℚ) < ((m : ℤ) : ℚ) * 2 ^ e
  positivity

theorem signedValue_negative (m : ℕ) (e : ℤ) : signedValue .negative m e = -((m : ℚ) * 2 ^ e) := by
  simp [signedValue, Sign.apply]

theorem signedValue_neg {m : ℕ} (hm : 0 < m) (e : ℤ) : signedValue .negative m e < 0 := by
  have hpos : (0 : ℚ) < m * 2 ^ e := by positivity
  rw [signedValue_negative]
  linarith

/-- What a finite double is taken apart into. -/
inductive Unpacks (x : Float) (v : ℚ) : Prop where
  | zero (s : Sign) (hx : x.toModel.unpack = .zero s) (hv : v = 0)
  | finite (s : Sign) (m : ℕ) (e : ℤ) (hm : 0 < m) (hd : IsPositiveDouble m e)
      (hx : x.toModel.unpack = .finite s m e hm) (hv : v = signedValue s m e)

theorem unpacks {x : Float} {v : ℚ} (h : value? x = some v) : Unpacks x v := by
  unfold value? at h
  cases hx : decode x with
  | nan => rw [hx] at h; cases h
  | infinite negative => rw [hx] at h; cases h
  | finite negative m e =>
    rw [hx] at h
    cases h
    rcases Nat.eq_zero_or_pos m with rfl | hm
    · exact .zero _ (unpack_of_decode_zero hx) (by simp)
    · refine .finite _ m e hm (isPositiveDouble_of_decode hx hm.ne') (unpack_of_decode hx hm) ?_
      cases negative <;> simp [signedValue, signOf, Sign.apply]

section Order

variable {m₁ m₂ : ℕ} {e₁ e₂ : ℤ}

theorem scaled_lt_scaled (h₁ : IsPositiveDouble m₁ e₁) (h₂ : IsPositiveDouble m₂ e₂)
    (he : e₁ < e₂) : (m₁ : ℚ) * 2 ^ e₁ < m₂ * 2 ^ e₂ := by
  have hfull : (2 : ℚ) ^ 52 ≤ m₂ := by
    exact_mod_cast h₂.full.resolve_left (by have := h₁.smallest; omega)
  have hlt : (m₁ : ℚ) < 2 ^ 53 := by exact_mod_cast h₁.lt
  calc (m₁ : ℚ) * 2 ^ e₁ < 2 ^ 53 * 2 ^ e₁ := by gcongr
    _ = 2 ^ 52 * 2 ^ (e₁ + 1) := by rw [zpow_add₀ two_ne_zero]; ring
    _ ≤ m₂ * 2 ^ e₂ := by
      gcongr
      · norm_num
      · omega

theorem compare_scaled (h₁ : IsPositiveDouble m₁ e₁) (h₂ : IsPositiveDouble m₂ e₂) :
    (compare e₁ e₂).then (compare m₁ m₂) = compare ((m₁ : ℚ) * 2 ^ e₁) (m₂ * 2 ^ e₂) := by
  rcases lt_trichotomy e₁ e₂ with he | rfl | he
  · rw [compare_lt_iff_lt.2 he, compare_lt_iff_lt.2 (scaled_lt_scaled h₁ h₂ he)]
    rfl
  · have hpow : (0 : ℚ) < 2 ^ e₁ := by positivity
    rw [compare_eq_iff_eq.2 rfl]
    change compare m₁ m₂ = _
    rcases lt_trichotomy m₁ m₂ with hm | rfl | hm
    · rw [compare_lt_iff_lt.2 hm, eq_comm, compare_lt_iff_lt]
      gcongr
    · rw [compare_eq_iff_eq.2 rfl, compare_eq_iff_eq.2 rfl]
    · rw [compare_gt_iff_gt.2 hm, eq_comm, compare_gt_iff_gt]
      change (m₂ : ℚ) * 2 ^ e₁ < m₁ * 2 ^ e₁
      gcongr
  · rw [compare_gt_iff_gt.2 he, compare_gt_iff_gt.2 (scaled_lt_scaled h₂ h₁ he)]
    rfl

theorem compare_neg_neg (v w : ℚ) : compare (-v) (-w) = (compare v w).swap := by
  rcases lt_trichotomy v w with h | rfl | h
  · rw [compare_lt_iff_lt.2 h, compare_gt_iff_gt.2 (neg_lt_neg h)]
    rfl
  · rw [compare_eq_iff_eq.2 rfl, compare_eq_iff_eq.2 rfl]
    rfl
  · rw [compare_gt_iff_gt.2 h, compare_lt_iff_lt.2 (neg_lt_neg h)]
    rfl

theorem compare_unpacked {x y : Float} {v w : ℚ} (hx : value? x = some v) (hy : value? y = some w) :
    x.toModel.unpack.compare y.toModel.unpack = some (compare v w) := by
  cases unpacks hx with
  | zero s hux hv =>
    rw [hux, hv]
    cases unpacks hy with
    | zero s' huy hw =>
      rw [huy, hw, compare_eq_iff_eq.2 rfl]
      rfl
    | finite s' m e hm _ huy hw =>
      rw [huy, hw]
      cases s' with
      | positive =>
        rw [compare_lt_iff_lt.2 (signedValue_pos hm e)]
        rfl
      | negative =>
        rw [compare_gt_iff_gt.2 (signedValue_neg hm e)]
        rfl
  | finite s m e hm hd hux hv =>
    rw [hux, hv]
    cases unpacks hy with
    | zero s' huy hw =>
      rw [huy, hw]
      cases s with
      | positive =>
        rw [compare_gt_iff_gt.2 (signedValue_pos hm e)]
        rfl
      | negative =>
        rw [compare_lt_iff_lt.2 (signedValue_neg hm e)]
        rfl
    | finite s' m' e' hm' hd' huy hw =>
      rw [huy, hw]
      cases s with
      | positive =>
        cases s' with
        | positive => exact congrArg some (compare_scaled hd hd')
        | negative =>
          rw [compare_gt_iff_gt.2 ((signedValue_neg hm' e').trans (signedValue_pos hm e))]
          rfl
      | negative =>
        cases s' with
        | positive =>
          rw [compare_lt_iff_lt.2 ((signedValue_neg hm e).trans (signedValue_pos hm' e'))]
          rfl
        | negative =>
          rw [signedValue_negative, signedValue_negative, compare_neg_neg, ← compare_scaled hd hd']
          rfl

theorem lt_iff_value {x y : Float} {v w : ℚ} (hx : value? x = some v) (hy : value? y = some w) :
    x < y ↔ v < w := by
  have hlt : x < y ↔ x.toModel.unpack.lt y.toModel.unpack = true := by
    change decide (x.toModel < y.toModel) = true ↔ _
    exact decide_eq_true_iff
  rw [hlt, UnpackedFloat.lt, compare_unpacked hx hy, beq_iff_eq, Option.some.injEq,
    compare_lt_iff_lt]

theorem le_iff_value {x y : Float} {v w : ℚ} (hx : value? x = some v) (hy : value? y = some w) :
    x ≤ y ↔ v ≤ w := by
  have hle : x ≤ y ↔ x.toModel.unpack.le y.toModel.unpack = true := by
    change decide (x.toModel ≤ y.toModel) = true ↔ _
    exact decide_eq_true_iff
  rw [hle, UnpackedFloat.le, compare_unpacked hx hy, Option.any_some, ← compare_le_iff_le]
  cases compare v w <;> simp

end Order

section Cast

theorem mantissa_shiftRight (em : ExtendedMantissa) (k : ℕ) :
    (k.repeat ExtendedMantissa.shiftRightOne em).mantissa = em.mantissa >>> k := by
  induction k with
  | zero => rfl
  | succ k ih =>
    rw [Nat.shiftRight_succ, ← ih]
    rfl

theorem roundToInt_eq (s : Sign) (m : ℕ) (e : ℤ) :
    roundToInt s m e = s.apply ((m <<< e.toNat) >>> (-e).toNat : ℕ) := by
  have hamount : (0 - (e - (e - 0).toNat)).toNat = (-e).toNat := by omega
  unfold roundToInt decreaseExponent shiftToExponent
  dsimp only
  rw [hamount, sub_zero]
  exact congrArg (fun n : ℕ => s.apply n) (mantissa_shiftRight _ _)

theorem toNat_ofNatClamp (n : ℕ) : (UInt64.ofNatClamp n).toNat = min n (2 ^ 64 - 1) := by
  unfold UInt64.ofNatClamp
  split
  next h =>
    have hlt : n < 2 ^ 64 := h
    rw [UInt64.toNat_ofNatLT]
    omega
  next h =>
    have hle : 2 ^ 64 ≤ n := not_lt.1 h
    rw [UInt64.toNat_ofNatLT]
    change 2 ^ 64 - 1 = _
    omega

theorem toNat_ofNatClamp32 (n : ℕ) : (UInt32.ofNatClamp n).toNat = min n (2 ^ 32 - 1) := by
  unfold UInt32.ofNatClamp
  split
  next h =>
    have hlt : n < 2 ^ 32 := h
    rw [UInt32.toNat_ofNatLT]
    omega
  next h =>
    have hle : 2 ^ 32 ≤ n := not_lt.1 h
    rw [UInt32.toNat_ofNatLT]
    change 2 ^ 32 - 1 = _
    omega

theorem toInt_of_value {x : Float} {v : ℚ} (h : value? x = some v) (low high : ℤ) :
    UnpackedFloat.toInt low high x.toModel.unpack = towardZero v := by
  cases unpacks h with
  | zero s hx hv =>
    rw [hx, hv]
    rfl
  | finite s m e hm _ hx hv =>
    have hround : roundToInt s m e = towardZero v := by
      rw [roundToInt_eq, hv]
      cases s with
      | positive => exact (integerPart_eq false m e).trans (by simp [signedValue, Sign.apply])
      | negative => exact (integerPart_eq true m e).trans (by simp [signedValue, Sign.apply])
    rw [hx, ← hround]
    rfl

/-- The word that a finite double is cast to: its integer part, at least zero and at most the
greatest word. -/
theorem toNat_toUInt64 {x : Float} {v : ℚ} (h : value? x = some v) :
    x.toUInt64.toNat = min (towardZero v).toNat (2 ^ 64 - 1) := by
  rw [← toInt_of_value h 0 (UInt64.size - 1)]
  exact toNat_ofNatClamp _

theorem toNat_toUInt32 {x : Float} {v : ℚ} (h : value? x = some v) :
    x.toUInt32.toNat = min (towardZero v).toNat (2 ^ 32 - 1) := by
  rw [← toInt_of_value h 0 (UInt32.size - 1)]
  exact toNat_ofNatClamp32 _

end Cast

section Sums

theorem unpackSign_packComponents (s : Sign) (e : BitVec 11) (m : BitVec 52) :
    unpackSign (packComponents Format.binary64 s e m) = s.toBitVec := by
  apply BitVec.eq_of_toNat_eq
  have hm := m.isLt
  have he := e.isLt
  have hs := s.toBitVec.isLt
  rw [toNat_unpackSign, toNat_packComponents]
  omega

theorem unpackSign_pack (s : Sign) (m : ℕ) (e : ℤ) (hm : 0 < m) :
    unpackSign (UnpackedFloat.pack Format.binary64 (.finite s m e hm)) = s.toBitVec := by
  unfold UnpackedFloat.pack
  dsimp only
  split
  · exact unpackSign_packComponents s _ _
  · split
    · exact unpackSign_packComponents s _ _
    · exact unpackSign_packComponents s _ _

theorem toUInt64_of_sign {b : BitVec Format.binary64.numBits} (h : unpackSign b = 1#1) :
    (UnpackedFloat.unpack Format.binary64 b).toUInt64 = 0 := by
  have hneg (n : ℕ) : (-(n : ℤ)).toNat = 0 := by omega
  have hfinite (m : ℕ) (e : ℤ) (hm : 0 < m) :
      (UnpackedFloat.finite .negative m e hm).toUInt64 = 0 := by
    have hround := roundToInt_eq .negative m e
    change UInt64.ofNatClamp (roundToInt .negative m e).toNat = 0
    rw [hround]
    exact congrArg UInt64.ofNatClamp (hneg _)
  unfold UnpackedFloat.unpack
  dsimp only
  rw [h]
  by_cases hlast : unpackExponent b = -1#11
  · rw [if_pos hlast]
    by_cases hzero : unpackMantissa b = 0#52
    · rw [if_pos hzero]
      rfl
    · rw [if_neg hzero]
      rfl
  · rw [if_neg hlast]
    by_cases hfirst : unpackExponent b = 0#11
    · rw [if_pos hfirst]
      by_cases hzero : unpackMantissa b = 0#52
      · rw [dif_pos hzero]
        rfl
      · rw [dif_neg hzero]
        exact hfinite _ _ _
    · rw [if_neg hfirst]
      exact hfinite _ _ _

theorem decreaseExponent_value (m : ℕ) {e t : ℤ} (ht : t ≤ e) :
    ((decreaseExponent m e t).1 : ℚ) * 2 ^ t = m * 2 ^ e := by
  obtain ⟨k, rfl⟩ : ∃ k : ℕ, e = t + k := ⟨(e - t).toNat, by omega⟩
  unfold decreaseExponent
  dsimp only
  rw [Nat.shiftLeft_eq, add_sub_cancel_left, Int.toNat_natCast, zpow_add₀ two_ne_zero, zpow_natCast]
  push_cast
  ring

theorem exists_sum (s₁ s₂ : Sign) {m₁ m₂ : ℕ} (e₁ e₂ : ℤ) (h₁ : 0 < m₁) (h₂ : 0 < m₂) :
    ∃ (n : ℤ) (e : ℤ),
      UnpackedFloat.add Format.binary64 (.finite s₁ m₁ e₁ h₁) (.finite s₂ m₂ e₂ h₂) =
        normalize Format.binary64 n e .positive ∧
      signedValue s₁ m₁ e₁ + signedValue s₂ m₂ e₂ = n * 2 ^ e := by
  refine ⟨s₁.apply (decreaseExponent m₁ e₁ (min e₁ e₂)).1 +
    s₂.apply (decreaseExponent m₂ e₂ (min e₁ e₂)).1, min e₁ e₂, rfl, ?_⟩
  have hfirst := decreaseExponent_value m₁ (min_le_left e₁ e₂)
  have hsecond := decreaseExponent_value m₂ (min_le_right e₁ e₂)
  have happly (s : Sign) (m : ℕ) : ((s.apply m : ℤ) : ℚ) = (s.apply 1 : ℤ) * m := by
    cases s <;> simp [Sign.apply]
  unfold signedValue
  rw [Int.cast_add, happly s₁ m₁, happly s₂ m₂, happly s₁ (decreaseExponent m₁ e₁ _).1,
    happly s₂ (decreaseExponent m₂ e₂ _).1, add_mul, mul_assoc, mul_assoc, mul_assoc, mul_assoc,
    hfirst, hsecond]

theorem log2_mul_two_pow {m : ℕ} (hm : m ≠ 0) (j : ℕ) : (m * 2 ^ j).log2 = m.log2 + j := by
  induction j with
  | zero => simp
  | succ j ih =>
    have hne : m * 2 ^ j ≠ 0 := Nat.mul_ne_zero hm (Nat.two_pow_pos j).ne'
    rw [pow_succ, ← mul_assoc, mul_comm _ 2, Nat.log2_two_mul hne, ih, Nat.add_assoc]

theorem round_of_natural (s : Sign) {M n : ℕ} {e : ℤ} (h : (M : ℚ) * 2 ^ e = n) (hpos : 0 < n)
    (hn : n < 2 ^ 53) :
    ∃ (k : ℕ) (hk : 0 < n * 2 ^ k), k ≤ 52 ∧ 2 ^ 52 ≤ n * 2 ^ k ∧ n * 2 ^ k < 2 ^ 53 ∧
      UnpackedFloat.round Format.binary64 s M e = .finite s (n * 2 ^ k) (-k) hk := by
  obtain ⟨k, hk, -, hlow, hhigh⟩ := exists_full hpos hn
  refine ⟨k, by omega, hk, hlow, hhigh, ?_⟩
  -- The mantissa is shifted by `a`, and the full mantissa by `j`, until the two have one exponent.
  obtain ⟨a, j, hexponent, ha, hj⟩ : ∃ a j : ℕ, e - a = -k - j ∧ (e - -k).toNat = a ∧
      (a = 0 ∨ j = 0) :=
    ⟨(e - -k).toNat, (-k - e).toNat, by omega, rfl, by omega⟩
  have hshifted : M * 2 ^ a = n * 2 ^ k * 2 ^ j := by
    have hcast : (M : ℚ) * 2 ^ (a : ℤ) = n * 2 ^ (k : ℤ) * 2 ^ (j : ℤ) := by
      have hsplit : (a : ℤ) = e + (k + j) := by omega
      rw [hsplit, zpow_add₀ two_ne_zero, zpow_add₀ two_ne_zero, ← mul_assoc, h, mul_assoc]
    exact_mod_cast hcast
  have htarget : Format.binary64.targetExponent (totalExponent M e) = -k := by
    have hfull := targetExponent_of_full (e := -k) hlow hhigh (by omega) j
    rw [← hshifted, ← hexponent] at hfull
    rw [← hfull]
    have hM : M ≠ 0 := by
      rintro rfl
      rw [zero_mul] at hshifted
      have := Nat.two_pow_pos j
      rcases Nat.mul_eq_zero.1 hshifted.symm <;> omega
    unfold totalExponent
    rw [log2_mul_two_pow hM]
    congr 1
    omega
  have hround := roundWithAccuracy_of_full (s := s) (e := -k) hlow hhigh (by omega) j
  unfold UnpackedFloat.round decreaseExponent
  dsimp only
  rw [htarget, ha, Nat.shiftLeft_eq, hshifted, hexponent]
  exact hround

theorem add_eq (x y : Float) : x + y = Float.ofModel (Float.Model.pack
    (UnpackedFloat.add Format.binary64 x.toModel.unpack y.toModel.unpack)) :=
  rfl

theorem ofModel_pack_unpack (x : Float) : Float.ofModel (Float.Model.pack x.toModel.unpack) =
    x := by
  have hbits := pack_unpack x.toModel.valid
  obtain ⟨⟨bits, hvalid⟩⟩ := x
  change Float.ofModel (Float.Model.mk (UInt64.ofBitVec _) _) = _
  congr 2
  exact congrArg UInt64.ofBitVec hbits

theorem value?_pack_zero (s : Sign) : value? (Float.ofModel (Float.Model.pack (.zero s))) =
    some 0 := by
  obtain ⟨negative, hdecode⟩ : ∃ negative,
      decode (Float.ofModel (Float.Model.pack (.zero s))) = .finite negative 0 (-1074) := by
    cases s with
    | positive => exact ⟨false, by decide⟩
    | negative => exact ⟨true, by decide⟩
  rw [value?_of_decode hdecode]
  simp

theorem value?_round (negative : Bool) {M n : ℕ} {e : ℤ} (h : (M : ℚ) * 2 ^ e = n) (hpos : 0 < n)
    (hn : n < 2 ^ 53) :
    value? (Float.ofModel (Float.Model.pack
      (UnpackedFloat.round Format.binary64 (signOf negative) M e))) =
        some ((if negative then -1 else 1) * (n : ℚ)) := by
  obtain ⟨k, hk, hsmall, hlow, hhigh, hrounded⟩ := round_of_natural (signOf negative) h hpos hn
  have hdecode := decode_pack_of_full negative hlow hhigh (by omega : -1074 ≤
    (-k : ℤ)) (by omega) hk
  rw [hrounded, value?_of_decode hdecode, scaled_value]

theorem value?_normalize {M n e : ℤ} (h : (M : ℚ) * 2 ^ e = n) (hn : |n| < 2 ^ 53) :
    value? (Float.ofModel (Float.Model.pack (normalize Format.binary64 M e .positive))) =
      some (n : ℚ) := by
  have hpow : (0 : ℚ) < 2 ^ e := by positivity
  rw [abs_lt] at hn
  unfold UnpackedFloat.normalize
  rcases lt_trichotomy M 0 with hM | rfl | hM
  · have hneg : n < 0 := by
      have : (n : ℚ) < 0 := by
        rw [← h]
        exact mul_neg_of_neg_of_pos (by exact_mod_cast hM) hpow
      exact_mod_cast this
    obtain ⟨m, rfl⟩ : ∃ m : ℕ, M = -m := ⟨(-M).toNat, by omega⟩
    obtain ⟨k, rfl⟩ : ∃ k : ℕ, n = -k := ⟨(-n).toNat, by omega⟩
    rw [compare_lt_iff_lt.2 hM, neg_neg, Int.toNat_natCast]
    rw [Int.cast_neg, Int.cast_neg, neg_mul, neg_inj] at h
    have hvalue := value?_round true h (by omega) (by omega)
    exact hvalue.trans (by simp)
  · rw [Int.cast_zero, zero_mul] at h
    rw [compare_eq_iff_eq.2 rfl, ← h]
    exact value?_pack_zero .positive
  · have hpos : 0 < n := by
      have : (0 : ℚ) < n := by
        rw [← h]
        exact mul_pos (by exact_mod_cast hM) hpow
      exact_mod_cast this
    obtain ⟨m, rfl⟩ : ∃ m : ℕ, M = m := ⟨M.toNat, by omega⟩
    obtain ⟨k, rfl⟩ : ∃ k : ℕ, n = k := ⟨n.toNat, by omega⟩
    rw [compare_gt_iff_gt.2 hM, Int.toNat_natCast]
    have hvalue := value?_round false h (by omega) (by omega)
    exact hvalue.trans (by simp)

theorem value?_add {x y : Float} {v w : ℚ} {n : ℤ} (hx : value? x = some v) (hy : value? y = some w)
    (hsum : v + w = n) (hn : |n| < 2 ^ 53) : value? (x + y) = some (n : ℚ) := by
  cases unpacks hx with
  | zero s hux hv =>
    cases unpacks hy with
    | zero s' huy hw =>
      obtain ⟨s'', hzeros⟩ :
          ∃ s'', UnpackedFloat.add Format.binary64 (.zero s) (.zero s') = .zero s'' := by
        cases s <;> cases s' <;> exact ⟨_, rfl⟩
      rw [add_eq, hux, huy, hzeros, value?_pack_zero, ← hsum, hv, hw, add_zero]
    | finite s' m' e' hm' _ huy hw =>
      have hadd : x + y = y := by
        rw [add_eq, hux, huy]
        exact (congrArg (Float.ofModel ∘ Float.Model.pack) huy.symm).trans (ofModel_pack_unpack y)
      rw [hadd, hy, ← hsum, hv, zero_add]
  | finite s m e hm _ hux hv =>
    cases unpacks hy with
    | zero s' huy hw =>
      have hadd : x + y = x := by
        rw [add_eq, hux, huy]
        exact (congrArg (Float.ofModel ∘ Float.Model.pack) hux.symm).trans (ofModel_pack_unpack x)
      rw [hadd, hx, ← hsum, hw, add_zero]
    | finite s' m' e' hm' _ huy hw =>
      obtain ⟨M, E, hadd, hvalue⟩ := exists_sum s s' e e' hm hm'
      rw [add_eq, hux, huy, hadd]
      refine value?_normalize ?_ hn
      rw [← hvalue, ← hv, ← hw, hsum]

theorem roundWithAccuracy_cases (f : Format) (s : Sign) (m : ℕ) (e : ℤ) (a : Accuracy) :
    roundWithAccuracy f s m e a = .zero s ∨
      ∃ m' e' hm, roundWithAccuracy f s m e a = .finite s m' e' hm := by
  rcases hfirst : shiftToTargetExponent f m e a with ⟨em₁, e₁⟩
  rcases hagain : shiftToTargetExponent f em₁.roundedMantissa e₁ .exact with ⟨em₂, e₂⟩
  unfold roundWithAccuracy
  rw [hfirst]
  dsimp only
  rw [hagain]
  obtain hzero | hpos := Nat.eq_zero_or_pos em₂.mantissa
  · exact .inl (dif_pos hzero)
  · exact .inr ⟨em₂.mantissa, e₂, hpos, dif_neg hpos.ne'⟩

theorem unpackSign_pack_round (s : Sign) (m : ℕ) (e : ℤ) :
    unpackSign (UnpackedFloat.pack Format.binary64 (UnpackedFloat.round Format.binary64 s m e)) =
      s.toBitVec := by
  unfold UnpackedFloat.round
  dsimp only
  obtain hzero | ⟨m', e', hm, hfinite⟩ := roundWithAccuracy_cases Format.binary64 s _ _ _
  · rw [hzero]
    exact unpackSign_packComponents s _ _
  · rw [hfinite]
    exact unpackSign_pack s _ _ _

/-- A negative sum of two doubles is cast to zero. It may be rounded, but it keeps its sign. -/
theorem toUInt64_add_of_neg {x y : Float} {v w : ℚ} (hx : value? x = some v)
    (hy : value? y = some w) (hsum : v + w < 0) : (x + y).toUInt64 = 0 := by
  have hnegative {s : Sign} {m : ℕ} {e : ℤ} (hm : 0 < m) (h : signedValue s m e < 0) :
      s = .negative := by
    cases s with
    | positive => exact absurd h (signedValue_pos hm e).not_gt
    | negative => rfl
  change (UnpackedFloat.unpack Format.binary64 (UnpackedFloat.pack Format.binary64
    (UnpackedFloat.add Format.binary64 x.toModel.unpack y.toModel.unpack))).toUInt64 = 0
  apply toUInt64_of_sign
  cases unpacks hx with
  | zero s hux hv =>
    cases unpacks hy with
    | zero s' huy hw =>
      rw [hv, hw, add_zero] at hsum
      exact absurd hsum (lt_irrefl 0)
    | finite s' m' e' hm' _ huy hw =>
      rw [hv, zero_add, hw] at hsum
      rw [hux, huy, hnegative hm' hsum]
      exact unpackSign_pack .negative _ _ _
  | finite s m e hm _ hux hv =>
    cases unpacks hy with
    | zero s' huy hw =>
      rw [hw, add_zero, hv] at hsum
      rw [hux, huy, hnegative hm hsum]
      exact unpackSign_pack .negative _ _ _
    | finite s' m' e' hm' _ huy hw =>
      obtain ⟨M, E, hadd, hvalue⟩ := exists_sum s s' e e' hm hm'
      rw [hv, hw, hvalue] at hsum
      have hM : M < 0 := by
        by_contra hM
        have hvalue : (0 : ℚ) ≤ M := by exact_mod_cast not_lt.1 hM
        exact absurd hsum (not_lt.2 (by positivity))
      rw [hux, huy, hadd, UnpackedFloat.normalize, compare_lt_iff_lt.2 hM]
      exact unpackSign_pack_round .negative _ _

end Sums

section Infinities

variable {x : Float} {v : ℚ}

theorem not_infinity_lt (h : value? x = some v) : ¬infinity < x := by
  have hlt : infinity < x ↔ UnpackedFloat.lt (.infinity .positive) x.toModel.unpack = true := by
    change decide (infinity.toModel < x.toModel) = true ↔ _
    exact decide_eq_true_iff
  rw [hlt]
  cases unpacks h with
  | zero s hx hv =>
    rw [hx]
    exact Bool.false_ne_true
  | finite s m e hm _ hx hv =>
    rw [hx]
    exact Bool.false_ne_true

theorem toUInt64_add_negInfinity (h : value? x = some v) : (x + negInfinity).toUInt64 = 0 := by
  have hinfinite : negInfinity.toModel.unpack = .infinity .negative := rfl
  have hadd : UnpackedFloat.add Format.binary64 x.toModel.unpack (.infinity .negative) =
      .infinity .negative := by
    cases unpacks h with
    | zero s hx hv =>
      rw [hx]
      rfl
    | finite s m e hm _ hx hv =>
      rw [hx]
      rfl
  rw [add_eq, hinfinite, hadd]
  rfl

end Infinities

end ScriptEngine.Numeric
