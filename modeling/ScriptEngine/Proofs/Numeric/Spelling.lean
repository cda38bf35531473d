import ScriptEngine.Numeric.Numeral
import ScriptEngine.Proofs.Numeric.ShortestDigits
import ScriptEngine.Proofs.Token.LexicalGrammar

/-!
# Spellings of decimals

Every layout of digits is a spelling: digits, digits behind a point if there are any, and an
exponent with its sign if there is one. A spelling is a decimal of the lexical grammar, no radix
mark stands in it, and it is read as the number that its parts stand for.
-/

namespace ScriptEngine.Numeric

def Decimal.value (d : Decimal) : ℚ :=
  d.significand * 10 ^ d.exponent

/-- A decimal as it is written. An exponent is small enough to be read digit by digit. -/
structure Spelling where
  whole : List Char
  fraction : List Char
  exponent : Option ℤ
  whole_ne_nil : whole ≠ []
  whole_digits : ∀ c ∈ whole, isDigit c = true
  fraction_digits : ∀ c ∈ fraction, isDigit c = true
  exponent_le : ∀ e ∈ exponent, e.natAbs ≤ exponentLimit

namespace Spelling

def fractionText (s : Spelling) : List Char :=
  if s.fraction = [] then [] else '.' :: s.fraction

def exponentPart (s : Spelling) : List Char :=
  s.exponent.elim [] exponentText

def text (s : Spelling) : List Char :=
  s.whole ++ s.fractionText ++ s.exponentPart

def decimal (s : Spelling) : Decimal :=
  ⟨naturalOf (s.whole ++ s.fraction), s.exponent.getD 0 - s.fraction.length⟩

theorem isDigits_toDigits (n : ℕ) : Lexeme.IsDigits (Nat.toDigits 10 n) :=
  ⟨Nat.toDigits_ne_nil, List.all_eq_true.1 (all_isDigit_toDigits n)⟩

theorem isDecimal (s : Spelling) : Lexeme.IsDecimal s.text := by
  refine ⟨s.whole, s.fractionText, s.exponentPart, ⟨s.whole_ne_nil, s.whole_digits⟩, ?_, ?_, rfl⟩
  · unfold fractionText
    split
    next => exact .inl rfl
    next h => exact .inr ⟨s.fraction, ⟨h, s.fraction_digits⟩, rfl⟩
  · unfold exponentPart
    cases s.exponent with
    | none => exact .inl rfl
    | some e =>
      refine .inr ⟨'e', [if e < 0 then '-' else '+'], _, .inl rfl, ?_,
        isDigits_toDigits e.natAbs, rfl⟩
      split
      · exact .inr (.inr rfl)
      · exact .inr (.inl rfl)

end Spelling

section Reading

theorem exponentOf_concat (ds : List Char) (c : Char) :
    exponentOf (ds ++ [c]) =
      if exponentOf ds < exponentLimit then exponentOf ds * 10 + digitValue c
        else exponentOf ds := by
  unfold exponentOf
  rw [List.foldl_append]
  rfl

/-- No digit of an exponent that stays below the limit is left out. -/
theorem exponentOf_eq_naturalOf (ds : List Char) (h : naturalOf ds ≤ exponentLimit) :
    exponentOf ds = naturalOf ds := by
  induction ds using List.reverseRecOn with
  | nil => rfl
  | append_singleton ds c ih =>
    rw [naturalOf_append, naturalOf_singleton, List.length_singleton, pow_one] at h ⊢
    have hlt : naturalOf ds < exponentLimit := by
      unfold exponentLimit at h ⊢
      omega
    rw [exponentOf_concat, ih hlt.le, if_pos hlt]

theorem readExponent?_exponentText {e : ℤ} (h : e.natAbs ≤ exponentLimit) :
    readExponent? (exponentText e) = some e := by
  have hread : exponentOf (Nat.toDigits 10 e.natAbs) = e.natAbs := by
    rw [exponentOf_eq_naturalOf _ (by rwa [naturalOf_toDigits]), naturalOf_toDigits]
  have hdigits : ((Nat.toDigits 10 e.natAbs).isEmpty || !(Nat.toDigits 10 e.natAbs).all isDigit) =
      false := by
    simp [all_isDigit_toDigits, Nat.toDigits_ne_nil]
  unfold exponentText readExponent?
  by_cases hneg : e < 0
  · simp only [if_pos hneg, true_or, if_true, splitSign, hdigits, hread]
    simp only [Bool.false_eq_true, if_false, Option.some.injEq, Int.ofNat_eq_natCast]
    omega
  · simp only [if_neg hneg, true_or, if_true, splitSign, hdigits, hread]
    simp only [Bool.false_eq_true, if_false, Option.some.injEq, Int.ofNat_eq_natCast]
    omega

theorem span_digits {ds rest : List Char} (hds : ∀ c ∈ ds, isDigit c = true)
    (hrest : ∀ c ∈ rest.head?, isDigit c = false) :
    (ds ++ rest).span isDigit = (ds, rest) := by
  rw [List.span_eq_takeWhile_dropWhile, List.takeWhile_append_of_pos hds,
    List.dropWhile_append_of_pos hds]
  cases rest with
  | nil => simp
  | cons c cs => simp [hrest c (by simp)]

namespace Spelling

variable (s : Spelling)

theorem readExponent?_exponentPart : readExponent? s.exponentPart = some (s.exponent.getD 0) := by
  unfold exponentPart
  cases h : s.exponent with
  | none => rfl
  | some e => exact readExponent?_exponentText (s.exponent_le e h)

theorem head?_exponentPart : ∀ c ∈ s.exponentPart.head?, c = 'e' := by
  unfold exponentPart
  cases s.exponent with
  | none => simp
  | some e => simp [exponentText]

theorem splitFraction_text :
    splitFraction (s.fractionText ++ s.exponentPart) = (s.fraction, s.exponentPart) := by
  have hhead := s.head?_exponentPart
  unfold fractionText
  by_cases hnil : s.fraction = []
  · rw [if_pos hnil, hnil, List.nil_append]
    unfold splitFraction
    split
    next cs heq =>
      rw [heq] at hhead
      exact absurd (hhead '.' rfl) (by decide)
    next => rfl
  · rw [if_neg hnil]
    apply span_digits s.fraction_digits
    intro c hc
    rw [hhead c hc]
    decide

theorem read?_text : Decimal.read? s.text = some s.decimal := by
  have hstop : ∀ c ∈ (s.fractionText ++ s.exponentPart).head?, isDigit c = false := by
    intro c hc
    unfold fractionText at hc
    by_cases hnil : s.fraction = []
    · rw [if_pos hnil, List.nil_append] at hc
      rw [s.head?_exponentPart c hc]
      decide
    · rw [if_neg hnil] at hc
      cases hc
      decide
  unfold Decimal.read? text
  rw [List.append_assoc, span_digits s.whole_digits hstop]
  dsimp only
  rw [splitFraction_text]
  have hnonempty : (s.whole.isEmpty && s.fraction.isEmpty) = false := by
    simp [s.whole_ne_nil]
  simp only [hnonempty, Bool.false_eq_true, if_false, readExponent?_exponentPart, Option.map_some]
  rfl

end Spelling

end Reading

section Layouts

theorem naturalOf_zeros (n : ℤ) : naturalOf (zeros n) = 0 :=
  naturalOf_replicate_zero n.toNat

theorem isDigit_of_mem_zeros {n : ℤ} {c : Char} (h : c ∈ zeros n) : isDigit c = true := by
  rw [List.eq_of_mem_replicate h]
  decide

def Spelling.wholeOf (d : Digits) (hd : d.Proper) : Spelling where
  whole := d.digits ++ zeros (d.point - d.digits.length)
  fraction := []
  exponent := none
  whole_ne_nil := by simp [hd.nonempty]
  whole_digits := by
    intro c hc
    obtain hc | hc := List.mem_append.1 hc
    · exact List.all_eq_true.1 hd.all c hc
    · exact isDigit_of_mem_zeros hc
  fraction_digits := by simp
  exponent_le := by simp

def Spelling.splitAt (d : Digits) (hd : d.Proper) (k : ℕ) (hk : 0 < k) : Spelling where
  whole := d.digits.take k
  fraction := d.digits.drop k
  exponent := none
  whole_ne_nil := by simp [hd.nonempty, hk.ne']
  whole_digits := fun c hc => List.all_eq_true.1 hd.all c (List.mem_of_mem_take hc)
  fraction_digits := fun c hc => List.all_eq_true.1 hd.all c (List.mem_of_mem_drop hc)
  exponent_le := by simp

def Spelling.fractionOf (d : Digits) (hd : d.Proper) : Spelling where
  whole := ['0']
  fraction := zeros (-d.point) ++ d.digits
  exponent := none
  whole_ne_nil := by simp
  whole_digits := by simp [isDigit]
  fraction_digits := by
    intro c hc
    obtain hc | hc := List.mem_append.1 hc
    · exact isDigit_of_mem_zeros hc
    · exact List.all_eq_true.1 hd.all c hc
  exponent_le := by simp

/-- The one text of both zeros. -/
def Spelling.zero : Spelling where
  whole := ['0']
  fraction := []
  exponent := none
  whole_ne_nil := by simp
  whole_digits := by simp [isDigit]
  fraction_digits := by simp
  exponent_le := by simp

def Spelling.scientific (lead : Char) (rest : List Char) (point : ℤ)
    (hdigits : ∀ c ∈ lead :: rest, isDigit c = true) (hpoint : (point - 1).natAbs ≤ exponentLimit) :
    Spelling where
  whole := [lead]
  fraction := rest
  exponent := some (point - 1)
  whole_ne_nil := by simp
  whole_digits := by simpa using hdigits lead List.mem_cons_self
  fraction_digits := fun c hc => hdigits c (List.mem_cons_of_mem lead hc)
  exponent_le := by simpa using hpoint

section Values

variable {d : Digits} (hd : d.Proper)

theorem Spelling.text_of_whole (s : Spelling) (hfraction : s.fraction = [])
    (hexponent : s.exponent = none) : s.text = s.whole := by
  simp [text, fractionText, exponentPart, hfraction, hexponent]

theorem Spelling.text_of_fraction (s : Spelling) (hfraction : s.fraction ≠ [])
    (hexponent : s.exponent = none) : s.text = s.whole ++ '.' :: s.fraction := by
  simp [text, fractionText, exponentPart, hfraction, hexponent]

theorem Spelling.value_wholeOf (h : (d.digits.length : ℤ) ≤ d.point) :
    (wholeOf d hd).decimal.value = d.value := by
  obtain ⟨k, hk⟩ := Int.eq_ofNat_of_zero_le (sub_nonneg.2 h)
  have hnatural : naturalOf (d.digits ++ zeros k) = naturalOf d.digits * 10 ^ k := by
    rw [naturalOf_append, naturalOf_zeros]
    simp [zeros]
  simp only [Decimal.value, decimal, wholeOf, List.append_nil, hk, hnatural, Digits.value]
  simp

theorem Spelling.value_splitAt {k : ℕ} (hk : 0 < k) (hlt : k ≤ d.digits.length)
    (hpoint : d.point = k) : (splitAt d hd k hk).decimal.value = d.value := by
  simp only [Decimal.value, decimal, splitAt, List.take_append_drop, List.length_drop, Digits.value,
    hpoint, Option.getD_none]
  congr 2
  omega

theorem Spelling.value_fractionOf (h : d.point ≤ 0) : (fractionOf d hd).decimal.value =
    d.value := by
  have hnatural : naturalOf (['0'] ++ (zeros (-d.point) ++ d.digits)) = naturalOf d.digits := by
    have hzero : naturalOf ['0'] = 0 := rfl
    rw [naturalOf_append, naturalOf_append, naturalOf_zeros, hzero]
    simp
  unfold Decimal.value decimal fractionOf Digits.value
  dsimp only
  rw [hnatural]
  simp only [Option.getD_none, List.length_append, zeros, List.length_replicate]
  congr 2
  omega

theorem Spelling.value_scientific {lead : Char} {rest : List Char} {point : ℤ}
    (hdigits : ∀ c ∈ lead :: rest, isDigit c = true)
    (hpoint : (point - 1).natAbs ≤ exponentLimit) :
    (scientific lead rest point hdigits hpoint).decimal.value =
      (Digits.mk (lead :: rest) point).value := by
  simp only [Decimal.value, decimal, scientific, Digits.value, Option.getD_some, List.length_cons,
    List.singleton_append]
  congr 2
  omega

end Values

theorem Layout.exists_spelling (l : Layout) {d : Digits} (hd : d.Proper)
    (hpoint : (d.point - 1).natAbs ≤ exponentLimit) :
    ∃ s : Spelling, l.write d = s.text ∧ s.decimal.value = d.value := by
  unfold Layout.write
  simp only [Int.ofNat_eq_natCast]
  split
  next hwhole =>
    exact ⟨.wholeOf d hd, (Spelling.text_of_whole (.wholeOf d hd) rfl rfl).symm,
      Spelling.value_wholeOf hd hwhole.1⟩
  next hwhole =>
    split
    next hsplit =>
      have hk : 0 < d.point.toNat := by omega
      have hlt : d.point.toNat < d.digits.length := by omega
      refine ⟨.splitAt d hd d.point.toNat hk,
        (Spelling.text_of_fraction (.splitAt d hd d.point.toNat hk) ?_ rfl).symm,
        Spelling.value_splitAt hd hk hlt.le (by omega)⟩
      change d.digits.drop d.point.toNat ≠ []
      simpa using hlt
    next =>
      split
      next hfraction =>
        refine ⟨.fractionOf d hd, (Spelling.text_of_fraction (.fractionOf d hd) ?_ rfl).symm,
          Spelling.value_fractionOf hd hfraction.2⟩
        change zeros (-d.point) ++ d.digits ≠ []
        simp [hd.nonempty]
      next =>
        obtain ⟨digits, point⟩ := d
        obtain ⟨lead, rest, rfl⟩ := List.exists_cons_of_ne_nil hd.nonempty
        have hdigits := List.all_eq_true.1 hd.all
        refine ⟨.scientific lead rest point hdigits hpoint, ?_, Spelling.value_scientific ..⟩
        -- a single digit is written without a point
        cases rest with
        | nil => rfl
        | cons c cs => rfl

end Layouts

end ScriptEngine.Numeric
