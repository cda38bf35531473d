import Mathlib.Data.Int.Bitwise
import Mathlib.Data.Int.ModEq
import ScriptEngine.Evaluation.Expression
import ScriptEngine.Prelude
import ScriptEngine.Proofs.Numeric.Reduction

/-!
# Words and the operators on them

A double counts as its integer part modulo `2 ^ 32`, in two's complement where a sign matters. The
bitwise operators and the shifts are the operations of the same name on the integers that the words
stand for: bit by bit with the sign repeated without end, by a power of two with the product brought
back into range, and by a power of two rounded down. Every result is an exact double.
-/

namespace ScriptEngine

namespace Numeric

section Bits

theorem testBit_add_eq_false (n k : ℕ) : n.testBit (n + k) = false := by
  apply Nat.testBit_lt_two_pow
  exact lt_of_lt_of_le Nat.lt_two_pow_self (Nat.pow_le_pow_right (by omega) (by omega))

theorem testBit_ofNat_ne_negSucc (m n : ℕ) :
    (Int.ofNat m).testBit (m + n) ≠ (Int.negSucc n).testBit (m + n) := by
  have hm : m.testBit (m + n) = false := testBit_add_eq_false m n
  have hn : n.testBit (m + n) = false := Nat.add_comm m n ▸ testBit_add_eq_false n m
  simp [Int.testBit, hm, hn]

theorem eq_of_int_testBit_eq {a b : ℤ} (h : ∀ i, a.testBit i = b.testBit i) : a = b := by
  cases a with
  | ofNat m =>
    cases b with
    | ofNat n => exact congrArg Int.ofNat (Nat.eq_of_testBit_eq h)
    | negSucc n => exact absurd (h (m + n)) (testBit_ofNat_ne_negSucc m n)
  | negSucc m =>
    cases b with
    | ofNat n => exact absurd (h (n + m)).symm (testBit_ofNat_ne_negSucc n m)
    | negSucc n =>
      apply congrArg Int.negSucc
      apply Nat.eq_of_testBit_eq
      intro i
      exact Bool.not_inj (h i)

theorem testBit_toInt (x : BitVec 32) (i : ℕ) :
    x.toInt.testBit i = if i < 32 then x.getLsbD i else x.msb := by
  cases hmsb : x.msb with
  | false =>
    rw [BitVec.toInt_eq_msb_cond, hmsb]
    change x.getLsbD i = _
    by_cases hi : i < 32
    · rw [if_pos hi]
    · rw [if_neg hi]
      exact BitVec.getLsbD_of_ge x i (by omega)
  | true =>
    have hneg : x.toInt = Int.negSucc (~~~x).toNat := by
      have hsize := x.isLt
      rw [BitVec.toInt_eq_msb_cond, hmsb, if_pos rfl, BitVec.toNat_not, Int.negSucc_eq]
      omega
    rw [hneg]
    change (!(~~~x).getLsbD i) = _
    rw [BitVec.getLsbD_not]
    by_cases hi : i < 32 <;> simp [hi]

end Bits

section Words

variable (a b : Int32)

theorem toInt_and : (a &&& b).toInt = a.toInt.land b.toInt := by
  apply eq_of_int_testBit_eq
  intro i
  rw [Int.testBit_land]
  simp only [← Int32.toInt_toBitVec, Int32.toBitVec_and, testBit_toInt, BitVec.getLsbD_and,
    BitVec.msb_and]
  split <;> rfl

theorem toInt_or : (a ||| b).toInt = a.toInt.lor b.toInt := by
  apply eq_of_int_testBit_eq
  intro i
  rw [Int.testBit_lor]
  simp only [← Int32.toInt_toBitVec, Int32.toBitVec_or, testBit_toInt, BitVec.getLsbD_or,
    BitVec.msb_or]
  split <;> rfl

theorem toInt_xor : (a ^^^ b).toInt = a.toInt.xor b.toInt := by
  apply eq_of_int_testBit_eq
  intro i
  rw [Int.testBit_lxor]
  simp only [← Int32.toInt_toBitVec, Int32.toBitVec_xor, testBit_toInt, BitVec.getLsbD_xor,
    BitVec.msb_xor]
  split <;> rfl

theorem toInt_not : (~~~a).toInt = a.toInt.lnot := by
  apply eq_of_int_testBit_eq
  intro i
  rw [Int.testBit_lnot]
  simp only [← Int32.toInt_toBitVec, Int32.toBitVec_not, testBit_toInt, BitVec.getLsbD_not,
    BitVec.msb_not]
  by_cases hi : i < 32 <;> simp [hi]

theorem toInt_eq_bmod : a.toInt = (a.toBitVec.toNat : ℤ).bmod (2 ^ 32) :=
  BitVec.toInt_eq_toNat_bmod a.toBitVec

theorem toInt_bounds : -2 ^ 31 ≤ a.toInt ∧ a.toInt < 2 ^ 31 := by
  rw [toInt_eq_bmod]
  exact ⟨Int.le_bmod (by norm_num), Int.bmod_lt (by norm_num)⟩

theorem toInt_emod : a.toInt % 2 ^ 32 = a.toBitVec.toNat := by
  have hsize : a.toBitVec.toNat < 2 ^ 32 := a.toBitVec.isLt
  have hmod : (a.toBitVec.toNat : ℤ).bmod (2 ^ 32) % ((2 ^ 32 : ℕ) : ℤ) =
      a.toBitVec.toNat % ((2 ^ 32 : ℕ) : ℤ) :=
    Int.bmod_emod
  rw [toInt_eq_bmod]
  omega

def shiftCount (n : ℤ) : ℕ :=
  (n % 32).toNat

theorem shiftCount_lt (n : ℤ) : shiftCount n < 32 := by
  unfold shiftCount
  omega

theorem toNat_shiftPlaces : (shiftPlaces b).toNat = shiftCount b.toInt := by
  have hmask : (31 : UInt32).toNat = 2 ^ 5 - 1 := rfl
  have hmod := toInt_emod b
  have hword : b.toUInt32.toNat = b.toBitVec.toNat := rfl
  unfold shiftPlaces
  rw [UInt32.toNat_and, hmask, Nat.and_two_pow_sub_one_eq_mod, hword]
  unfold shiftCount
  omega

theorem smod_of_lt {c : BitVec 32} (hc : c.toNat < 32) : c.smod 32 = c := by
  have hmsb : c.msb = false := by
    rw [BitVec.msb_eq_false_iff_two_mul_lt]
    omega
  have hbase : (32 : BitVec 32).msb = false := rfl
  rw [BitVec.smod_eq, hmsb, hbase]
  apply BitVec.eq_of_toNat_eq
  exact Nat.mod_eq_of_lt hc

theorem smod_shiftPlaces : (shiftPlaces b).toBitVec.smod 32 = (shiftPlaces b).toBitVec := by
  apply smod_of_lt
  exact (toNat_shiftPlaces b).trans_lt (shiftCount_lt _)

theorem toInt_shiftLeft :
    (shiftLeft a b).toInt = (a.toInt * 2 ^ shiftCount b.toInt).bmod (2 ^ 32) := by
  have hplaces : (shiftPlaces b).toBitVec.toNat = shiftCount b.toInt := toNat_shiftPlaces b
  change (a.toBitVec <<< ((shiftPlaces b).toBitVec.smod 32)).toInt = _
  rw [smod_shiftPlaces, BitVec.shiftLeft_eq', hplaces, BitVec.toInt_shiftLeft, toInt_eq_bmod a,
    Int.bmod_mul_bmod, Nat.shiftLeft_eq]
  push_cast
  rfl

theorem toInt_shiftRight : (shiftRight a b).toInt = a.toInt / 2 ^ shiftCount b.toInt := by
  have hplaces : (shiftPlaces b).toBitVec.toNat = shiftCount b.toInt := toNat_shiftPlaces b
  change (a.toBitVec.sshiftRight' ((shiftPlaces b).toBitVec.smod 32)).toInt = _
  rw [smod_shiftPlaces, BitVec.sshiftRight_eq', hplaces, BitVec.toInt_sshiftRight,
    Int.shiftRight_eq_div_pow]
  push_cast
  rfl

end Words

section SignedWords

variable {x : Float} {v : ℚ}

theorem toInt_toSignedWord_emod (x : Float) : (toSignedWord x).toInt % 2 ^ 32 = (toWord x).toNat :=
  toInt_emod _

/-- The shift that fills with zeros takes its count from a word without sign, whose low bits are
those of the signed word. -/
theorem toNat_shiftRightZero (x y : Float) :
    ((toWord x >>> (toWord y &&& 31)).toNat : ℤ) =
      (toSignedWord x).toInt % 2 ^ 32 / 2 ^ shiftCount (toSignedWord y).toInt := by
  have hplaces : (toWord y &&& 31).toNat = shiftCount (toSignedWord y).toInt :=
    toNat_shiftPlaces (toSignedWord y)
  rw [toInt_toSignedWord_emod, UInt32.toNat_shiftRight, hplaces, Nat.mod_eq_of_lt (shiftCount_lt _),
    Nat.shiftRight_eq_div_pow]
  push_cast
  rfl

theorem toInt_toSignedWord (h : value? x = some v) :
    (toSignedWord x).toInt ≡ towardZero v [ZMOD 2 ^ 32] := by
  unfold Int.ModEq
  rw [toInt_toSignedWord_emod, toNat_toWord h]

theorem value?_ofInt_of_word {n : ℤ} (hlow : -2 ^ 31 ≤ n) (hhigh : n < 2 ^ 32) :
    value? (Float.ofInt n) = some (n : ℚ) := by
  apply value?_ofInt
  rw [abs_lt]
  omega

theorem value?_ofInt_toInt (w : Int32) : value? (Float.ofInt w.toInt) = some (w.toInt : ℚ) := by
  obtain ⟨hlow, hhigh⟩ := toInt_bounds w
  exact value?_ofInt_of_word hlow (by omega)

theorem value?_ofNat_word (w : UInt32) : value? (Float.ofNat w.toNat) = some (w.toNat : ℚ) := by
  have hsize : w.toNat < 2 ^ 32 := w.toNat_lt
  exact value?_ofNat (by omega)

end SignedWords

end Numeric

open Numeric

/-- The operation on integers that a bitwise operator or a shift stands for. A shift to the left is
brought back into the range of a signed word, and a shift that fills with zeros takes its left
operand as a word without sign. -/
def BinaryOp.onIntegers? : BinaryOp → Option (ℤ → ℤ → ℤ)
  | .bitAnd => some Int.land
  | .bitOr => some Int.lor
  | .bitXor => some Int.xor
  | .shiftLeft => some fun a b => (a * 2 ^ shiftCount b).bmod (2 ^ 32)
  | .shiftRight => some fun a b => a / 2 ^ shiftCount b
  | .shiftRightZero => some fun a b => a % 2 ^ 32 / 2 ^ shiftCount b
  | _ => none

namespace Eval

variable (invoke : Invoke) (m : Machine) (a b : Float)

theorem onWords_exact (op : Int32 → Int32 → Int32) {r : ℤ}
    (h : (op (toSignedWord a) (toSignedWord b)).toInt = r) :
    ∃ y, onWords invoke op (.number a) (.number b) m = .ok (.number y) m ∧
      value? y = some (r : ℚ) := by
  subst h
  exact ⟨_, rfl, value?_ofInt_toInt _⟩

theorem binary_exact {op : BinaryOp} {f : ℤ → ℤ → ℤ} (h : op.onIntegers? = some f) :
    ∃ y, binary invoke op (.number a) (.number b) m = .ok (.number y) m ∧
      value? y = some (f (toSignedWord a).toInt (toSignedWord b).toInt : ℚ) := by
  cases op with
  | bitAnd =>
    cases h
    exact onWords_exact invoke m a b (· &&& ·) (toInt_and _ _)
  | bitOr =>
    cases h
    exact onWords_exact invoke m a b (· ||| ·) (toInt_or _ _)
  | bitXor =>
    cases h
    exact onWords_exact invoke m a b (· ^^^ ·) (toInt_xor _ _)
  | shiftLeft =>
    cases h
    exact onWords_exact invoke m a b shiftLeft (toInt_shiftLeft _ _)
  | shiftRight =>
    cases h
    exact onWords_exact invoke m a b shiftRight (toInt_shiftRight _ _)
  | shiftRightZero =>
    cases h
    refine ⟨_, rfl, ?_⟩
    beta_reduce
    rw [← toNat_shiftRightZero, Int.cast_natCast]
    exact value?_ofNat_word _
  | _ => cases h

theorem bitNot_exact :
    ∃ y, unary invoke .bitNot (.number a) m = .ok (.number y) m ∧
      value? y = some ((toSignedWord a).toInt.lnot : ℚ) := by
  rw [← toInt_not]
  exact ⟨_, rfl, value?_ofInt_toInt _⟩

end Eval

/-- The conversions of doubles to words are exact: a finite double is its integer part modulo
`2 ^ 32`, as a word without sign and as a signed one, and all others are zero. The bitwise operators
and the shifts are operations on these integers, and their results are doubles again. -/
theorem integer_conversions_are_exact :
    (∀ (x : Float) (v : ℚ), value? x = some v →
      ((toWord x).toNat : ℤ) = towardZero v % 2 ^ 32 ∧
        (-2 ^ 31 ≤ (toSignedWord x).toInt ∧ (toSignedWord x).toInt < 2 ^ 31) ∧
        (toSignedWord x).toInt ≡ towardZero v [ZMOD 2 ^ 32]) ∧
    (∀ x : Float, value? x = none → (toWord x).toNat = 0 ∧ (toSignedWord x).toInt = 0) ∧
    (∀ (invoke : Invoke) (m : Machine) (a b : Float) (op : BinaryOp) (f : ℤ → ℤ → ℤ),
      op.onIntegers? = some f →
        ∃ y, Eval.binary invoke op (.number a) (.number b) m = .ok (.number y) m ∧
          value? y = some (f (toSignedWord a).toInt (toSignedWord b).toInt : ℚ)) ∧
    ∀ (invoke : Invoke) (m : Machine) (a : Float),
      ∃ y, Eval.unary invoke .bitNot (.number a) m = .ok (.number y) m ∧
        value? y = some ((toSignedWord a).toInt.lnot : ℚ) := by
  refine ⟨?_, ?_, ?_, ?_⟩
  · intro x v h
    exact ⟨toNat_toWord h, toInt_bounds _, toInt_toSignedWord h⟩
  · intro x h
    unfold toSignedWord
    rw [toWord_of_not_finite h]
    exact ⟨rfl, rfl⟩
  · intro invoke m a b op f h
    exact Eval.binary_exact invoke m a b h
  · intro invoke m a
    exact Eval.bitNot_exact invoke m a

/-- A fraction above the range of words and a count above their width. -/
theorem integer_conversions_are_exact_beyond_words :
    ((toWord 4294967295.5).toNat : ℤ) = towardZero (8589934591 / 2) % 2 ^ 32 ∧
      (toSignedWord 4294967295.5).toInt ≡ towardZero (8589934591 / 2) [ZMOD 2 ^ 32] ∧
      ∃ y, Eval.binary (fun _ _ _ _ => throw .outOfFuel) .shiftRightZero (.number 4294967295.5)
          (.number 33) (Machine.bare none) = .ok (.number y) (Machine.bare none) ∧
        value? y = some 2147483647 := by
  have hdecode : decode 4294967295.5 = .finite false 9007199253692416 (-21) := by decide
  have hvalue : value? 4294967295.5 = some (8589934591 / 2) := by
    rw [value?_of_decode hdecode]
    norm_num
  obtain ⟨hwords, -, hoperators, -⟩ := integer_conversions_are_exact
  obtain ⟨hnat, -, hsigned⟩ := hwords _ _ hvalue
  refine ⟨hnat, hsigned, ?_⟩
  obtain ⟨y, hy, hv⟩ := hoperators (fun _ _ _ _ => throw .outOfFuel) (Machine.bare none)
    4294967295.5 33 .shiftRightZero _ rfl
  refine ⟨y, hy, ?_⟩
  have hleft : (toSignedWord 4294967295.5).toInt = -1 := by decide
  have hright : (toSignedWord 33).toInt = 33 := by decide
  rw [hv, hleft, hright]
  norm_num [shiftCount]

end ScriptEngine
