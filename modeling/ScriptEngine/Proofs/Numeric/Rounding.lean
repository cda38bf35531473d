import Mathlib.Data.Int.Log
import Mathlib.Data.Rat.Floor
import Mathlib.Tactic
import ScriptEngine.Numeric.Shortest

/-!
# Rounding to the nearest double

Quotients of naturals are compared with doubles as rationals. The numbers of the neighbourhood of a
positive double, and its ends when its mantissa is even, have that double as the nearest one, so
`magnitudeBits` gives its bits. Below a power of two the unit of a neighbouring number is half as
large, and the number rounds up to the power.
-/

namespace ScriptEngine.Numeric

theorem cast_scale_div_scale (base num den : ℕ) (k : ℤ) :
    ((num * base ^ k.toNat : ℕ) : ℚ) / (den * base ^ (-k).toNat : ℕ) =
      num / den * (base : ℚ) ^ k := by
  obtain ⟨n, rfl | rfl⟩ := k.eq_nat_or_neg
  · simp [div_mul_eq_mul_div]
  · simp [div_eq_mul_inv]
    ring

theorem scale_le_scale_iff {base num den : ℕ} (hbase : 0 < base) (hden : 0 < den) (k : ℤ) :
    den * base ^ k.toNat ≤ num * base ^ (-k).toNat ↔ (base : ℚ) ^ k ≤ num / den := by
  have hpow : (0 : ℚ) < (base : ℚ) ^ k := by positivity
  have hscaled := cast_scale_div_scale base num den (-k)
  rw [neg_neg, zpow_neg, ← div_eq_mul_inv] at hscaled
  have hpos : (0 : ℚ) < (den * base ^ k.toNat : ℕ) := by positivity
  rw [← one_le_div hpow, ← hscaled, one_le_div hpos, Nat.cast_le]

theorem log_div {base num den : ℕ} (hbase : 1 < base) (hnum : 0 < num) (hden : 0 < den) {k : ℤ}
    (hk : k = (Nat.log base num : ℤ) - Nat.log base den) :
    Int.log base ((num : ℚ) / den) =
      if den * base ^ k.toNat ≤ num * base ^ (-k).toNat then k else k - 1 := by
  have hpos : (0 : ℚ) < num / den := by positivity
  have hzero : (base : ℚ) ≠ 0 := by positivity
  have hnumLow : (base : ℚ) ^ (Nat.log base num : ℤ) ≤ num := by
    exact_mod_cast Nat.pow_log_le_self base hnum.ne'
  have hnumHigh : (num : ℚ) < (base : ℚ) ^ ((Nat.log base num : ℤ) + 1) := by
    exact_mod_cast Nat.lt_pow_succ_log_self hbase num
  have hdenLow : (base : ℚ) ^ (Nat.log base den : ℤ) ≤ den := by
    exact_mod_cast Nat.pow_log_le_self base hden.ne'
  have hdenHigh : (den : ℚ) < (base : ℚ) ^ ((Nat.log base den : ℤ) + 1) := by
    exact_mod_cast Nat.lt_pow_succ_log_self hbase den
  -- each part is less than a factor of the base above its power, so only two orders remain
  have hlow : (base : ℚ) ^ (k - 1) ≤ num / den := by
    rw [le_div_iff₀ (by positivity)]
    calc (base : ℚ) ^ (k - 1) * den
        ≤ (base : ℚ) ^ (k - 1) * (base : ℚ) ^ ((Nat.log base den : ℤ) + 1) := by gcongr
      _ = (base : ℚ) ^ (Nat.log base num : ℤ) := by
        rw [← zpow_add₀ hzero]
        congr 1
        omega
      _ ≤ num := hnumLow
  have hhigh : (num : ℚ) / den < (base : ℚ) ^ (k + 1) := by
    rw [div_lt_iff₀ (by positivity)]
    calc (num : ℚ) < (base : ℚ) ^ ((Nat.log base num : ℤ) + 1) := hnumHigh
      _ = (base : ℚ) ^ (k + 1) * (base : ℚ) ^ (Nat.log base den : ℤ) := by
        rw [← zpow_add₀ hzero]
        congr 1
        omega
      _ ≤ (base : ℚ) ^ (k + 1) * den := by gcongr
  have hle := (Int.zpow_le_iff_le_log hbase hpos).1 hlow
  have hlt := (Int.lt_zpow_iff_log_lt hbase hpos).1 hhigh
  have hcompare := (scale_le_scale_iff (by omega) hden k).trans (Int.zpow_le_iff_le_log hbase hpos)
  split
  next h => exact le_antisymm (by omega) (hcompare.1 h)
  next h =>
    have := mt hcompare.2 h
    omega

theorem binaryOrder_eq_log {num den : ℕ} (hnum : 0 < num) (hden : 0 < den) :
    binaryOrder num den = Int.log 2 ((num : ℚ) / den) := by
  rw [log_div (by norm_num) hnum hden rfl]
  simp only [binaryOrder, Nat.log2_eq_log_two, Nat.shiftLeft_eq, Int.ofNat_eq_natCast]

theorem decimalLength_eq_log {n : ℕ} (hn : 0 < n) : decimalLength n = Nat.log 10 n + 1 := by
  have hpos : 0 < decimalLength n := Nat.length_repr_pos
  have hlow : decimalLength n ≤ Nat.log 10 n + 1 :=
    (Nat.length_repr_le_iff (by omega)).2 (Nat.lt_pow_succ_log_self (by norm_num) n)
  have hhigh : n < 10 ^ decimalLength n := (Nat.length_repr_le_iff hpos).1 (Nat.le_refl _)
  have := (Nat.log_lt_iff_lt_pow (by norm_num) hn.ne').2 hhigh
  omega

theorem decimalPoint_eq_log {num den : ℕ} (hnum : 0 < num) (hden : 0 < den) :
    decimalPoint num den = Int.log 10 ((num : ℚ) / den) + 1 := by
  have hk : (Nat.log 10 num : ℤ) - Nat.log 10 den =
      (decimalLength num : ℤ) - decimalLength den := by
    rw [decimalLength_eq_log hnum, decimalLength_eq_log hden]
    omega
  have hlog := log_div (by norm_num : 1 < 10) hnum hden rfl
  rw [hk] at hlog
  have hcast : Int.log 10 ((num : ℚ) / den) = Int.log (10 : ℕ) ((num : ℚ) / den) := rfl
  rw [hcast, hlog]
  unfold decimalPoint
  simp only [Int.ofNat_eq_natCast, Nat.pow_eq]
  split <;> omega

theorem roundQuotient_eq {num den m : ℕ} (hden : 0 < den) (hlow : 2 * (m * den) ≤ 2 * num + den)
    (hhigh : 2 * num ≤ 2 * (m * den) + den)
    (hodd : m % 2 = 1 → 2 * (m * den) < 2 * num + den ∧ 2 * num < 2 * (m * den) + den) :
    roundQuotient num den = m := by
  have hsplit : num = num / den * den + num % den := (Nat.div_add_mod' num den).symm
  have hrest : num % den < den := Nat.mod_lt num hden
  unfold roundQuotient
  generalize num / den = q at *
  generalize num % den = r at *
  subst hsplit
  have hq : q ≤ m := by
    by_contra hlt
    have hmul : (m + 1) * den ≤ q * den := Nat.mul_le_mul_right den (by omega)
    rw [Nat.add_mul, Nat.one_mul] at hmul
    omega
  have hm : m ≤ q + 1 := by
    by_contra hlt
    have hmul : (q + 2) * den ≤ m * den := Nat.mul_le_mul_right den (by omega)
    rw [Nat.add_mul] at hmul
    omega
  -- the quotient is rounded down or up, by the rest
  obtain rfl | rfl : m = q ∨ m = q + 1 := by omega
  · dsimp only
    split_ifs <;> omega
  · rw [Nat.add_mul, Nat.one_mul] at hlow hhigh hodd
    dsimp only
    split_ifs <;> omega

def Near (m : ℕ) (below above : ℚ) (x : ℚ) : Prop :=
  m - below ≤ x ∧ x ≤ m + above ∧ (m % 2 = 1 → m - below < x ∧ x < m + above)

theorem roundQuotient_of_near {num den m : ℕ} (hden : 0 < den)
    (h : Near m (1 / 2) (1 / 2) (num / den)) : roundQuotient num den = m := by
  have hpos : (0 : ℚ) < den := by exact_mod_cast hden
  obtain ⟨hlow, hhigh, hodd⟩ := h
  rw [le_div_iff₀ hpos] at hlow
  rw [div_le_iff₀ hpos] at hhigh
  rw [lt_div_iff₀ hpos, div_lt_iff₀ hpos] at hodd
  apply roundQuotient_eq hden
  · have : 2 * ((m : ℚ) * den) ≤ 2 * num + den := by linarith
    exact_mod_cast this
  · have : 2 * (num : ℚ) ≤ 2 * (m * den) + den := by linarith
    exact_mod_cast this
  · intro h
    obtain ⟨hl, hh⟩ := hodd h
    have hl : 2 * ((m : ℚ) * den) < 2 * num + den := by linarith
    have hh : 2 * (num : ℚ) < 2 * (m * den) + den := by linarith
    exact ⟨by exact_mod_cast hl, by exact_mod_cast hh⟩

theorem magnitudeBits_of_near {num den m : ℕ} {e : ℤ} (hnum : 0 < num) (hden : 0 < den)
    (hunit : max (-1074) (Int.log 2 ((num : ℚ) / den) - 52) = e)
    (hnear : Near m (1 / 2) (1 / 2) (num / den / 2 ^ e)) :
    magnitudeBits num den =
      min ((e + 1074).toNat * 0x10000000000000 + m) (2047 * 0x10000000000000) := by
  have hscaled := cast_scale_div_scale 2 num den (-e)
  rw [neg_neg, zpow_neg, ← div_eq_mul_inv] at hscaled
  have hround : roundQuotient (num <<< (-e).toNat) (den <<< e.toNat) = m := by
    apply roundQuotient_of_near
    · simpa [Nat.shiftLeft_eq] using hden
    · rw [Nat.shiftLeft_eq, Nat.shiftLeft_eq, hscaled]
      exact hnear
  unfold magnitudeBits
  rw [if_neg hnum.ne', binaryOrder_eq_log hnum hden, hunit]
  dsimp only
  rw [hround]

/-- Mantissa and exponent of a positive double: the mantissa has all its bits unless the exponent
is the smallest. -/
structure IsPositiveDouble (m : ℕ) (e : ℤ) : Prop where
  pos : 0 < m
  lt : m < 0x20000000000000
  smallest : -1074 ≤ e
  largest : e ≤ 971
  full : e = -1074 ∨ 0x10000000000000 ≤ m

namespace Neighbourhood

/-- The number reads back as the double. -/
def Holds (n : Neighbourhood) (x : ℚ) : Prop :=
  if n.closed then n.low * 2 ^ n.exponent ≤ x ∧ x ≤ n.high * 2 ^ n.exponent
  else n.low * 2 ^ n.exponent < x ∧ x < n.high * 2 ^ n.exponent

/-- The distance, in units, at which the numbers below a double read back. -/
def reach (m : ℕ) (e : ℤ) : ℚ :=
  if m = 0x10000000000000 ∧ -1074 < e then 1 / 4 else 1 / 2

theorem holds_iff {m : ℕ} {e : ℤ} (hm : 0 < m) (x : ℚ) :
    (around m e).Holds x ↔ Near m (reach m e) (1 / 2) (x / 2 ^ e) := by
  have hpow : (0 : ℚ) < 2 ^ e := by positivity
  have hunit : (2 : ℚ) ^ (e - 2) = 2 ^ e / 4 := by
    rw [zpow_sub₀ two_ne_zero]
    norm_num
  -- the ends are whole numbers of quarters of the unit
  have hlow : ((around m e).low : ℚ) * 2 ^ (e - 2) = (m - reach m e) * 2 ^ e := by
    have : ((around m e).low : ℚ) = 4 * (m - reach m e) := by
      simp only [around, reach]
      split
      · rw [Nat.cast_sub (by omega)]
        push_cast
        ring
      · rw [Nat.cast_sub (by omega)]
        push_cast
        ring
    rw [this, hunit]
    ring
  have hhigh : ((around m e).high : ℚ) * 2 ^ (e - 2) = (m + 1 / 2) * 2 ^ e := by
    rw [hunit]
    simp only [around]
    push_cast
    ring
  have hexp : (around m e).exponent = e - 2 := rfl
  unfold Holds Near
  rw [hexp, hlow, hhigh, ← le_div_iff₀ hpow, ← div_le_iff₀ hpow, ← lt_div_iff₀ hpow,
    ← div_lt_iff₀ hpow]
  obtain heven | hodd := Nat.mod_two_eq_zero_or_one m
  · simp [around, heven]
  · simp only [around, hodd]
    constructor
    · intro h
      exact ⟨h.1.le, h.2.le, fun _ => h⟩
    · intro h
      exact h.2.2 trivial

end Neighbourhood

theorem log_two_lt_iff {x : ℚ} (hx : 0 < x) (k : ℤ) : Int.log 2 x < k ↔ x < 2 ^ k :=
  (Int.lt_zpow_iff_log_lt (by norm_num) hx).symm

theorem le_log_two_iff {x : ℚ} (hx : 0 < x) (k : ℤ) : k ≤ Int.log 2 x ↔ 2 ^ k ≤ x :=
  (Int.zpow_le_iff_le_log (by norm_num) hx).symm

theorem reach_le_half (m : ℕ) (e : ℤ) : Neighbourhood.reach m e ≤ 1 / 2 := by
  unfold Neighbourhood.reach
  split <;> norm_num

theorem magnitudeBits_of_same_unit {num den m : ℕ} {e : ℤ} (hd : IsPositiveDouble m e)
    (hnum : 0 < num) (hden : 0 < den)
    (hnear : Near m (Neighbourhood.reach m e) (1 / 2) (num / den / 2 ^ e))
    (hfull : e = -1074 ∨ (2 : ℚ) ^ (e + 52) ≤ num / den) :
    magnitudeBits num den = (e + 1074).toNat * 0x10000000000000 + m := by
  have hpos : (0 : ℚ) < num / den := by positivity
  have hpow : (0 : ℚ) < 2 ^ e := by positivity
  have hreach := reach_le_half m e
  have hlt : (num : ℚ) / den < 2 ^ (e + 53) := by
    have hm : (m : ℚ) ≤ 0x20000000000000 - 1 := by
      have := Nat.cast_le (α := ℚ).2 (Nat.succ_le_of_lt hd.lt)
      push_cast at this
      linarith
    have hhigh := (div_le_iff₀ hpow).1 hnear.2.1
    rw [zpow_add₀ two_ne_zero]
    nlinarith
  have horder := (log_two_lt_iff hpos _).2 hlt
  have hunit : max (-1074) (Int.log 2 ((num : ℚ) / den) - 52) = e := by
    have hsmallest := hd.smallest
    obtain he | hfull := hfull
    · omega
    · have := (le_log_two_iff hpos _).2 hfull
      omega
  have hhalf : Near m (1 / 2) (1 / 2) (num / den / 2 ^ e) := by
    obtain ⟨hlow, hhigh, hodd⟩ := hnear
    exact ⟨by linarith, hhigh, fun h => ⟨by linarith [(hodd h).1], (hodd h).2⟩⟩
  rw [magnitudeBits_of_near hnum hden hunit hhalf]
  have := hd.lt
  have := hd.largest
  omega

theorem magnitudeBits_of_half_unit {num den m : ℕ} {e : ℤ} (hd : IsPositiveDouble m e)
    (hnum : 0 < num) (hden : 0 < den) (he : e ≠ -1074)
    (hnear : Near m (Neighbourhood.reach m e) (1 / 2) (num / den / 2 ^ e))
    (hlt : (num : ℚ) / den < 2 ^ (e + 52)) :
    magnitudeBits num den = (e + 1074).toNat * 0x10000000000000 + m := by
  have hpos : (0 : ℚ) < num / den := by positivity
  have hpow : (0 : ℚ) < 2 ^ e := by positivity
  have hsmallest := hd.smallest
  have hbelow : (num : ℚ) / den / 2 ^ e < 0x10000000000000 := by
    rw [div_lt_iff₀ hpow]
    rw [zpow_add₀ two_ne_zero] at hlt
    linarith
  -- a larger mantissa is more than its reach above the power of two
  have hm : m = 0x10000000000000 := by
    by_contra hne
    have hlarge : (0x10000000000000 : ℚ) + 1 ≤ m := by
      have := hd.full.resolve_left he
      exact_mod_cast (by omega : 0x10000000000000 + 1 ≤ m)
    linarith [hnear.1, reach_le_half m e]
  subst hm
  have hreach : Neighbourhood.reach 0x10000000000000 e = 1 / 4 := by
    unfold Neighbourhood.reach
    exact if_pos ⟨rfl, by omega⟩
  rw [hreach] at hnear
  have hlow := hnear.1
  push_cast at hlow
  have hunit : max (-1074) (Int.log 2 ((num : ℚ) / den) - 52) = e - 1 := by
    have hle : (2 : ℚ) ^ (e + 51) ≤ num / den := by
      rw [le_div_iff₀ hpow] at hlow
      rw [zpow_add₀ two_ne_zero]
      nlinarith
    have := (le_log_two_iff hpos _).2 hle
    have := (log_two_lt_iff hpos _).2 hlt
    omega
  -- a quarter of the unit is half of the smaller one, and twice the mantissa is even
  have hhalf : Near 0x20000000000000 (1 / 2) (1 / 2) (num / den / 2 ^ (e - 1)) := by
    have hdouble : (num : ℚ) / den / 2 ^ (e - 1) = 2 * (num / den / 2 ^ e) := by
      rw [zpow_sub₀ two_ne_zero]
      field_simp
    rw [hdouble]
    exact ⟨by push_cast; linarith, by push_cast; linarith, by omega⟩
  rw [magnitudeBits_of_near hnum hden hunit hhalf]
  -- the mantissa has carried into the exponent
  have := hd.largest
  omega

theorem magnitudeBits_of_holds {num den m : ℕ} {e : ℤ} (hd : IsPositiveDouble m e) (hnum : 0 < num)
    (hden : 0 < den) (h : (Neighbourhood.around m e).Holds (num / den)) :
    magnitudeBits num den = (e + 1074).toNat * 0x10000000000000 + m := by
  have hnear := (Neighbourhood.holds_iff hd.pos _).1 h
  by_cases hsame : e = -1074 ∨ (2 : ℚ) ^ (e + 52) ≤ num / den
  · exact magnitudeBits_of_same_unit hd hnum hden hnear hsame
  · obtain ⟨he, hlt⟩ := not_or.1 hsame
    exact magnitudeBits_of_half_unit hd hnum hden he hnear (not_le.1 hlt)

end ScriptEngine.Numeric
