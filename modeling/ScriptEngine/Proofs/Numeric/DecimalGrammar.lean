import ScriptEngine.Numeric.Reading
import ScriptEngine.Proofs.Numeric.Literals
import ScriptEngine.Proofs.Numeric.Spelling

/-!
# The grammar of decimals

Which texts are decimals, said without reference to how they are read: a mantissa, in which the
digits before or behind the point may be missing, and an exponent, which may be missing as a whole.
The reader of decimals accepts these texts and no others.
-/

namespace ScriptEngine.Numeric

open Lexeme (IsDigits IsExponent)

/-- Digits, digits with a point and maybe more digits behind it, or a point and digits. -/
inductive IsMantissa : List Char → Prop
  | whole {ds : List Char} : IsDigits ds → IsMantissa ds
  | point {ds fs : List Char} : IsDigits ds → (∀ c ∈ fs, isDigit c = true) →
      IsMantissa (ds ++ '.' :: fs)
  | fraction {fs : List Char} : IsDigits fs → IsMantissa ('.' :: fs)

def IsSign (w : List Char) : Prop :=
  w = [] ∨ w = ['+'] ∨ w = ['-']

def IsUnsignedDecimal (w : List Char) : Prop :=
  ∃ mantissa exponent, IsMantissa mantissa ∧ (exponent = [] ∨ IsExponent exponent) ∧
    w = mantissa ++ exponent

theorem isUnsignedDecimal_of_isDecimal {w : List Char} (h : Lexeme.IsDecimal w) :
    IsUnsignedDecimal w := by
  obtain ⟨whole, fraction, exponent, hwhole, hfraction, hexponent, rfl⟩ := h
  refine ⟨whole ++ fraction, exponent, ?_, hexponent, rfl⟩
  rcases hfraction with rfl | ⟨fs, hfs, rfl⟩
  · rw [List.append_nil]
    exact .whole hwhole
  · exact .point hwhole hfs.2

section Characters

theorem isDecimalChar_of_isDigit {c : Char} (h : isDigit c = true) : isDecimalChar c = true := by
  simp [isDecimalChar, h]

theorem IsMantissa.isDecimalChar {w : List Char} (h : IsMantissa w) :
    ∀ c ∈ w, Numeric.isDecimalChar c = true := by
  have hdigits : ∀ ds : List Char, (∀ c ∈ ds, isDigit c = true) →
      ∀ c ∈ ds, Numeric.isDecimalChar c = true :=
    fun ds hds c hc => isDecimalChar_of_isDigit (hds c hc)
  have hpoint : Numeric.isDecimalChar '.' = true := by decide
  cases h with
  | whole hds => exact hdigits _ hds.2
  | point hds hfs =>
    simp only [List.forall_mem_append, List.forall_mem_cons]
    exact ⟨hdigits _ hds.2, hpoint, hdigits _ hfs⟩
  | fraction hfs => exact List.forall_mem_cons.2 ⟨hpoint, hdigits _ hfs.2⟩

theorem IsSign.isDecimalChar {sign : List Char} (h : IsSign sign) :
    ∀ c ∈ sign, Numeric.isDecimalChar c = true := by
  rcases h with rfl | rfl | rfl <;> simp [Numeric.isDecimalChar]

theorem IsUnsignedDecimal.isDecimalChar {w : List Char} (h : IsUnsignedDecimal w) :
    ∀ c ∈ w, Numeric.isDecimalChar c = true := by
  obtain ⟨mantissa, exponent, hmantissa, hexponent, rfl⟩ := h
  refine List.forall_mem_append.2 ⟨hmantissa.isDecimalChar, ?_⟩
  rcases hexponent with rfl | ⟨mark, sign, ds, hmark, hsign, hds, rfl⟩
  · exact nofun
  · simp only [List.forall_mem_cons, List.forall_mem_append]
    refine ⟨?_, IsSign.isDecimalChar hsign, fun c hc => isDecimalChar_of_isDigit (hds.2 c hc)⟩
    rcases hmark with rfl | rfl <;> decide

end Characters

section Exponents

theorem splitSign_of_isDigits {sign ds : List Char} (hsign : IsSign sign) (hds : IsDigits ds) :
    (splitSign (sign ++ ds)).2 = ds := by
  rcases hsign with rfl | rfl | rfl
  · obtain ⟨d, ds, rfl⟩ := List.exists_cons_of_ne_nil hds.1
    rw [List.nil_append, splitSign_of_isDigit (hds.2 d List.mem_cons_self)]
  · rfl
  · rfl

theorem exists_sign (cs : List Char) :
    ∃ sign, IsSign sign ∧ cs = sign ++ (splitSign cs).2 := by
  unfold splitSign
  split
  · exact ⟨['-'], .inr (.inr rfl), rfl⟩
  · exact ⟨['+'], .inr (.inl rfl), rfl⟩
  · exact ⟨[], .inl rfl, rfl⟩

theorem isSome_readExponent?_cons (mark : Char) (cs : List Char) :
    (readExponent? (mark :: cs)).isSome = true ↔
      (mark = 'e' ∨ mark = 'E') ∧ IsDigits (splitSign cs).2 := by
  have hdigits : ((splitSign cs).2.isEmpty || !(splitSign cs).2.all isDigit) = true ↔
      ¬IsDigits (splitSign cs).2 := by
    simp only [IsDigits, Bool.or_eq_true, List.isEmpty_iff, Bool.not_eq_true', Bool.eq_false_iff,
      ne_eq, List.all_eq_true]
    tauto
  simp only [readExponent?]
  by_cases hmark : mark = 'e' ∨ mark = 'E'
  · rw [if_pos hmark]
    by_cases hds : IsDigits (splitSign cs).2
    · rw [if_neg (mt hdigits.1 (not_not.2 hds))]
      refine iff_of_true ?_ ⟨hmark, hds⟩
      split <;> rfl
    · rw [if_pos (hdigits.2 hds)]
      exact iff_of_false Bool.false_ne_true fun h => hds h.2
  · rw [if_neg hmark]
    exact iff_of_false Bool.false_ne_true fun h => hmark h.1

theorem isSome_readExponent?_iff (cs : List Char) :
    (readExponent? cs).isSome = true ↔ cs = [] ∨ IsExponent cs := by
  cases cs with
  | nil => exact iff_of_true rfl (.inl rfl)
  | cons mark cs =>
    rw [isSome_readExponent?_cons]
    constructor
    · rintro ⟨hmark, hds⟩
      obtain ⟨sign, hsign, hcs⟩ := exists_sign cs
      exact .inr ⟨mark, sign, _, hmark, hsign, hds, by rw [← hcs]⟩
    · rintro (h | ⟨mark', sign, ds, hmark, hsign, hds, h⟩)
      · cases h
      · cases h
        exact ⟨hmark, by rwa [splitSign_of_isDigits hsign hds]⟩

theorem head_of_exponent {exponent : List Char} (h : exponent = [] ∨ IsExponent exponent) :
    ∀ c ∈ exponent.head?, isDigit c = false ∧ c ≠ '.' := by
  intro c hc
  rcases h with rfl | ⟨mark, sign, ds, hmark, -, -, rfl⟩
  · cases hc
  · obtain rfl : mark = c := by simpa using hc
    rcases hmark with rfl | rfl <;> decide

end Exponents

section Mantissas

variable {rest : List Char}

theorem splitFraction_of_ne (h : ∀ c ∈ rest.head?, c ≠ '.') : splitFraction rest = ([], rest) := by
  unfold splitFraction
  split
  next cs => exact absurd rfl (h '.' rfl)
  next => rfl

theorem splitFraction_cases (cs : List Char) :
    splitFraction cs = ([], cs) ∨
      ∃ fs rest, (∀ c ∈ fs, isDigit c = true) ∧ cs = '.' :: (fs ++ rest) ∧
        splitFraction cs = (fs, rest) := by
  unfold splitFraction
  split
  next cs =>
    rw [List.span_eq_takeWhile_dropWhile]
    refine .inr ⟨_, _, fun c hc => List.mem_takeWhile_imp hc, ?_, rfl⟩
    rw [List.takeWhile_append_dropWhile]
  next => exact .inl rfl

theorem read?_append {whole fraction behind : List Char} (hwhole : ∀ c ∈ whole, isDigit c = true)
    (hstop : ∀ c ∈ rest.head?, isDigit c = false) (hsplit : splitFraction rest = (fraction, behind))
    (hne : whole ≠ [] ∨ fraction ≠ []) :
    (Decimal.read? (whole ++ rest)).isSome = (readExponent? behind).isSome := by
  unfold Decimal.read?
  rw [span_digits hwhole hstop]
  dsimp only
  rw [hsplit]
  dsimp only
  rw [if_neg (by simpa [or_iff_not_imp_left] using hne), Option.isSome_map]

theorem isSome_read?_mantissa {mantissa : List Char} (h : IsMantissa mantissa)
    (hrest : ∀ c ∈ rest.head?, isDigit c = false ∧ c ≠ '.') :
    (Decimal.read? (mantissa ++ rest)).isSome = (readExponent? rest).isSome := by
  have hdigit : ∀ c ∈ rest.head?, isDigit c = false := fun c hc => (hrest c hc).1
  have hpoint : ∀ fs, ∀ c ∈ ('.' :: fs : List Char).head?, isDigit c = false := by
    rintro fs c ⟨⟩
    decide
  cases h with
  | whole hds =>
    exact read?_append hds.2 hdigit (splitFraction_of_ne fun c hc => (hrest c hc).2) (.inl hds.1)
  | @point ds fs hds hfs =>
    rw [List.append_assoc]
    exact read?_append hds.2 (hpoint (fs ++ rest)) (span_digits hfs hdigit) (.inl hds.1)
  | @fraction fs hfs =>
    change (Decimal.read? ([] ++ '.' :: (fs ++ rest))).isSome = _
    exact read?_append nofun (hpoint (fs ++ rest)) (span_digits hfs.2 hdigit) (.inr hfs.1)

theorem exists_mantissa {cs : List Char} (h : (Decimal.read? cs).isSome = true) :
    ∃ mantissa rest, IsMantissa mantissa ∧ (readExponent? rest).isSome = true ∧
      cs = mantissa ++ rest := by
  have hwhole : ∀ c ∈ cs.takeWhile isDigit, isDigit c = true :=
    fun c hc => List.mem_takeWhile_imp hc
  have hcs := List.takeWhile_append_dropWhile (p := isDigit) (l := cs)
  unfold Decimal.read? at h
  rw [List.span_eq_takeWhile_dropWhile] at h
  dsimp only at h
  generalize cs.takeWhile isDigit = whole at *
  generalize cs.dropWhile isDigit = behind at *
  rcases splitFraction_cases behind with hsplit | ⟨fs, rest, hfs, rfl, hsplit⟩
  · simp only [hsplit, List.isEmpty_nil, Bool.and_true, List.isEmpty_iff] at h
    split at h
    next => cases h
    next hne =>
      rw [Option.isSome_map] at h
      exact ⟨whole, behind, .whole ⟨hne, hwhole⟩, h, hcs.symm⟩
  · simp only [hsplit, Bool.and_eq_true, List.isEmpty_iff] at h
    split at h
    next => cases h
    next hne =>
      rw [Option.isSome_map] at h
      by_cases hnil : whole = []
      · subst hnil
        exact ⟨'.' :: fs, rest, .fraction ⟨fun hfs => hne ⟨rfl, hfs⟩, hfs⟩, h, hcs.symm⟩
      · refine ⟨whole ++ '.' :: fs, rest, .point ⟨hnil, hwhole⟩ hfs, h, ?_⟩
        rw [List.append_assoc]
        exact hcs.symm

end Mantissas

theorem isSome_read?_iff (cs : List Char) :
    (Decimal.read? cs).isSome = true ↔ IsUnsignedDecimal cs := by
  constructor
  · intro h
    obtain ⟨mantissa, rest, hmantissa, hrest, hcs⟩ := exists_mantissa h
    exact ⟨mantissa, rest, hmantissa, (isSome_readExponent?_iff rest).1 hrest, hcs⟩
  · rintro ⟨mantissa, exponent, hmantissa, hexponent, rfl⟩
    rw [isSome_read?_mantissa hmantissa (head_of_exponent hexponent)]
    exact (isSome_readExponent?_iff exponent).2 hexponent

end ScriptEngine.Numeric
