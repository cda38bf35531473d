import ScriptEngine.Proofs.Numeric.ReadingBack

/-!
# The number at the start of a text

A number is a sign, which may be missing, and either infinity or a decimal. What is read from the
start of a text is the value of the longest number that the text begins with: each part is taken
greedily, and a part that would have begun behind it does not make the part before it longer. A text
that is a number as a whole, blanks around it aside, is its own longest start.
-/

namespace ScriptEngine.Numeric

open Lexeme (IsDigits IsExponent Munches munches_takeWhile munches_exponent)

/-- The numbers that may stand at the start of a text. -/
inductive IsNumeric : List Char → Prop
  | infinity {sign : List Char} : IsSign sign → IsNumeric (sign ++ "Infinity".toList)
  | decimal {sign w : List Char} : IsSign sign → IsUnsignedDecimal w → IsNumeric (sign ++ w)

structure IsLongest (P : List Char → Prop) (cs p : List Char) : Prop where
  begins : p <+: cs
  holds : P p
  longest : ∀ q, q <+: cs → P q → q.length ≤ p.length

/-- A text that announces its radix, with the mark in either case. -/
def HasRadixPrefix (cs : List Char) : Prop :=
  ∃ mark rest, cs = '0' :: mark :: rest ∧ mark ∈ ['x', 'X', 'o', 'O', 'b', 'B']

theorem IsLongest.unique {P : List Char → Prop} {cs p q : List Char} (hp : IsLongest P cs p)
    (hq : IsLongest P cs q) : p = q := by
  have hle := hp.longest q hq.begins hq.holds
  exact (List.prefix_of_prefix_length_le hp.begins hq.begins
    (hq.longest p hp.begins hp.holds)).eq_of_length_le hle

section Munching

theorem munches_point :
    Munches (fun w => w = [] ∨ ∃ ds, (∀ c ∈ ds, isDigit c = true) ∧ w = '.' :: ds) takeFraction
      fun c => c = '.' ∨ isDigit c = true where
  fits cs := by
    unfold takeFraction
    split
    · exact .inr ⟨_, fun c hc => List.mem_takeWhile_imp hc, rfl⟩
    · exact .inl rfl
  longest := by
    rintro w rest (rfl | ⟨ds, hds, rfl⟩)
    · unfold takeFraction
      split
      next cs hcs => exact .inr ⟨by simp, '.', by rw [← List.nil_append rest, hcs]; rfl, .inl rfl⟩
      next => exact .inl rfl
    · change '.' :: (ds ++ rest).takeWhile isDigit = _ ∨ _
      rcases (munches_takeWhile isDigit).longest ds rest hds with heq | ⟨hlt, c, hc, hdigit⟩
      · exact .inl (by rw [heq])
      · exact .inr ⟨Nat.succ_lt_succ hlt, c, hc, .inr hdigit⟩

def takeMantissa (cs : List Char) : List Char :=
  cs.takeWhile isDigit ++ takeFraction (cs.drop (cs.takeWhile isDigit).length)

/-- A mantissa, or what is left of it without digits. -/
def IsLooseMantissa (w : List Char) : Prop :=
  ∃ u v, (∀ c ∈ u, isDigit c = true) ∧
    (v = [] ∨ ∃ ds, (∀ c ∈ ds, isDigit c = true) ∧ v = '.' :: ds) ∧ w = u ++ v

theorem isMantissa_iff {w : List Char} :
    IsMantissa w ↔ IsLooseMantissa w ∧ w ≠ [] ∧ w ≠ ['.'] := by
  constructor
  · intro h
    cases h with
    | whole hds =>
      refine ⟨⟨w, [], hds.2, .inl rfl, (List.append_nil w).symm⟩, hds.1, ?_⟩
      rintro rfl
      exact absurd (hds.2 '.' List.mem_cons_self) (by decide)
    | @point ds fs hds hfs =>
      refine ⟨⟨ds, _, hds.2, .inr ⟨fs, hfs, rfl⟩, rfl⟩, by simp, fun h => ?_⟩
      have hlength := congrArg List.length h
      have hpos := List.length_pos_iff.2 hds.1
      simp only [List.length_append, List.length_cons, List.length_nil] at hlength
      omega
    | @fraction fs hfs =>
      exact ⟨⟨[], _, nofun, .inr ⟨fs, hfs.2, rfl⟩, rfl⟩, nofun, fun h => hfs.1 (List.cons.inj h).2⟩
  · rintro ⟨⟨u, v, hu, rfl | ⟨ds, hds, rfl⟩, rfl⟩, hne, hpoint⟩
    · rw [List.append_nil] at hne ⊢
      exact .whole ⟨hne, hu⟩
    · by_cases hnil : u = []
      · subst hnil
        exact .fraction ⟨fun h => hpoint (congrArg ('.' :: ·) h), hds⟩
      · exact .point ⟨hnil, hu⟩ hds

theorem munches_mantissa :
    Munches IsLooseMantissa takeMantissa
      fun c => isDigit c = true ∨ c = '.' ∨ isDigit c = true :=
  (munches_takeWhile isDigit).then munches_point (by
    rintro c w (h | ⟨ds, -, h⟩)
    · cases h
    · cases h
      decide)

theorem munches_unsigned :
    Munches (fun w => ∃ m x, IsLooseMantissa m ∧ (x = [] ∨ IsExponent x) ∧ w = m ++ x)
      (fun cs => takeMantissa cs ++ takeExponent (cs.drop (takeMantissa cs).length))
      fun c => (isDigit c = true ∨ c = '.' ∨ isDigit c = true) ∨
        c = 'e' ∨ c = 'E' ∨ isDigit c = true :=
  munches_mantissa.then munches_exponent (by
    intro c w h
    have hhead := head_of_exponent h c rfl
    simp [hhead])

end Munching

section Taking

variable {cs sign w : List Char}

theorem isPrefix_append {u v : List Char} (hu : u <+: cs) (hv : v <+: cs.drop u.length) :
    u ++ v <+: cs := by
  obtain ⟨rest, rfl⟩ := hu
  rw [List.drop_left] at hv
  exact (List.prefix_append_right_inj u).2 hv

theorem takeSign_isPrefix (cs : List Char) : takeSign cs <+: cs := by
  unfold takeSign
  split
  · exact List.cons_prefix_cons.2 ⟨rfl, List.nil_prefix⟩
  · exact List.cons_prefix_cons.2 ⟨rfl, List.nil_prefix⟩
  · exact List.nil_prefix

theorem isSign_takeSign (cs : List Char) : IsSign (takeSign cs) := by
  unfold takeSign
  split
  · exact .inr (.inl rfl)
  · exact .inr (.inr rfl)
  · exact .inl rfl

theorem takeFraction_isPrefix (cs : List Char) : takeFraction cs <+: cs := by
  unfold takeFraction
  split
  · exact List.cons_prefix_cons.2 ⟨rfl, List.takeWhile_prefix _⟩
  · exact List.nil_prefix

theorem takeMantissa_isPrefix (cs : List Char) : takeMantissa cs <+: cs :=
  isPrefix_append (List.takeWhile_prefix _) (takeFraction_isPrefix _)

theorem takeDecimal?_eq (cs : List Char) :
    takeDecimal? cs =
      let rest := cs.drop (takeSign cs).length
      if takeMantissa rest = [] ∨ takeMantissa rest = ['.'] then none
      else some (takeSign cs ++
        (takeMantissa rest ++ takeExponent (rest.drop (takeMantissa rest).length))) := by
  unfold takeDecimal?
  dsimp only
  rw [List.append_assoc]
  simp only [Bool.or_eq_true, List.isEmpty_iff, beq_iff_eq]
  rfl

theorem of_takeDecimal? {d : List Char} (h : takeDecimal? cs = some d) :
    d <+: cs ∧ ∃ sign w, IsSign sign ∧ IsUnsignedDecimal w ∧ d = sign ++ w := by
  rw [takeDecimal?_eq] at h
  dsimp only at h
  split at h
  next => cases h
  next hne =>
    rw [not_or] at hne
    cases h
    refine ⟨isPrefix_append (takeSign_isPrefix cs)
      (isPrefix_append (takeMantissa_isPrefix _) (Lexeme.takes_exponent.isPrefix _)), _, _,
      isSign_takeSign cs, ⟨_, _, ?_, munches_exponent.fits _, rfl⟩, rfl⟩
    exact isMantissa_iff.2 ⟨munches_mantissa.fits _, hne⟩

theorem takeSign_append (hsign : IsSign sign) (hcs : ∀ c ∈ cs.head?, c ≠ '+' ∧ c ≠ '-') :
    takeSign (sign ++ cs) = sign := by
  rcases hsign with rfl | rfl | rfl
  · rw [List.nil_append]
    unfold takeSign
    split
    · exact absurd rfl (hcs '+' rfl).1
    · exact absurd rfl (hcs '-' rfl).2
    · rfl
  · rfl
  · rfl

theorem IsUnsignedDecimal.exists_head (h : IsUnsignedDecimal w) :
    ∃ c cs, w = c :: cs ∧ (isDigit c = true ∨ c = '.') := by
  obtain ⟨mantissa, exponent, hmantissa, -, rfl⟩ := h
  cases hmantissa with
  | whole hds =>
    obtain ⟨c, ds, rfl⟩ := List.exists_cons_of_ne_nil hds.1
    exact ⟨c, _, rfl, .inl (hds.2 c List.mem_cons_self)⟩
  | point hds _ =>
    obtain ⟨c, ds, rfl⟩ := List.exists_cons_of_ne_nil hds.1
    exact ⟨c, _, rfl, .inl (hds.2 c List.mem_cons_self)⟩
  | fraction _ => exact ⟨'.', _, rfl, .inr rfl⟩

theorem takeSign_decimal (hsign : IsSign sign) (hw : IsUnsignedDecimal w) (rest : List Char) :
    takeSign (sign ++ (w ++ rest)) = sign := by
  obtain ⟨c, cs, rfl, hc⟩ := hw.exists_head
  refine takeSign_append hsign fun d hd => ?_
  obtain rfl : c = d := by simpa using hd
  constructor <;> (rintro rfl; revert hc; decide)

theorem le_takeDecimal? (hsign : IsSign sign) (hw : IsUnsignedDecimal w)
    (hinitial : sign ++ w <+: cs) :
    ∃ d, takeDecimal? cs = some d ∧ (sign ++ w).length ≤ d.length := by
  obtain ⟨rest, rfl⟩ := hinitial
  rw [List.append_assoc, takeDecimal?_eq, takeSign_decimal hsign hw rest, List.drop_left]
  obtain ⟨mantissa, exponent, hmantissa, hexponent, rfl⟩ := hw
  obtain ⟨hloose, hne, hpoint⟩ := isMantissa_iff.1 hmantissa
  dsimp only
  rw [if_neg]
  · refine ⟨_, rfl, ?_⟩
    have hle := munches_unsigned.le ⟨mantissa, exponent, hloose, hexponent, rfl⟩
      (List.prefix_append _ rest)
    simp only [List.length_append] at hle ⊢
    omega
  · -- a longer mantissa has more than one character
    have hpos := List.length_pos_iff.2 hne
    rw [List.append_assoc]
    rcases munches_mantissa.longest mantissa (exponent ++ rest) hloose with heq | ⟨hlt, -⟩
    · rw [heq, not_or]
      exact ⟨hne, hpoint⟩
    · rintro (h | h)
      · simp [h] at hlt
      · rw [h, List.length_singleton] at hlt
        omega

end Taking

section Longest

variable {cs sign w : List Char}

theorem takeSign_infinity (hsign : IsSign sign) (rest : List Char) :
    takeSign (sign ++ ("Infinity".toList ++ rest)) = sign := by
  refine takeSign_append hsign fun c hc => ?_
  obtain rfl : 'I' = c := by simpa using hc
  decide

theorem isLongest_infinity (hsign : IsSign sign) (hinitial : sign ++ "Infinity".toList <+: cs) :
    IsLongest IsNumeric cs (sign ++ "Infinity".toList) := by
  refine ⟨hinitial, .infinity hsign, fun q hq hnumeric => ?_⟩
  obtain ⟨rest, rfl⟩ := hinitial
  obtain ⟨behind, hbehind⟩ := hq
  rw [List.append_assoc sign] at hbehind
  have hhere := takeSign_infinity hsign rest
  cases hnumeric with
  | infinity hsign' =>
    rw [← hbehind, List.append_assoc, takeSign_infinity hsign'] at hhere
    rw [hhere]
  | decimal hsign' hw =>
    rw [List.append_assoc] at hbehind
    rw [← hbehind, takeSign_decimal hsign' hw] at hhere
    subst hhere
    obtain ⟨c, cs, rfl, hc⟩ := hw.exists_head
    obtain rfl : c = 'I' := (List.cons.inj (List.append_cancel_left hbehind)).1
    exact absurd hc (by decide)

theorem isLongest_takeDecimal? {d : List Char}
    (hno : ∀ sign, IsSign sign → ¬sign ++ "Infinity".toList <+: cs) (h : takeDecimal? cs = some d) :
    IsLongest IsNumeric cs d := by
  obtain ⟨hinitial, sign, w, hsign, hw, rfl⟩ := of_takeDecimal? h
  refine ⟨hinitial, .decimal hsign hw, fun q hq hnumeric => ?_⟩
  cases hnumeric with
  | infinity hsign' => exact absurd hq (hno _ hsign')
  | decimal hsign' hw' =>
    obtain ⟨d, hd, hle⟩ := le_takeDecimal? hsign' hw' hq
    obtain rfl := Option.some.inj (h.symm.trans hd)
    exact hle

theorem not_isNumeric_of_takeDecimal? (hno : ∀ sign, IsSign sign →
    ¬sign ++ "Infinity".toList <+: cs)
    (h : takeDecimal? cs = none) : ∀ p, p <+: cs → ¬IsNumeric p := by
  intro p hp hnumeric
  cases hnumeric with
  | infinity hsign => exact hno _ hsign hp
  | decimal hsign hw =>
    obtain ⟨d, hd, -⟩ := le_takeDecimal? hsign hw hp
    rw [h] at hd
    cases hd

end Longest

section Values

variable {sign w : List Char}

theorem ofChars_decimal_sign (hsign : IsSign sign) (hw : IsUnsignedDecimal w) :
    ofChars (sign ++ w) = (readFloat? (sign ++ w)).getD nan := by
  obtain ⟨c, cs, rfl, -⟩ := hw.exists_head
  apply ofChars_of_all
  · exact List.forall_mem_append.2 ⟨hsign.isDecimalChar, hw.isDecimalChar⟩
  · simp

theorem leadingFloat_decimal {text : String}
    (hno : ∀ sign, IsSign sign → ¬sign ++ "Infinity".toList <+: Text.trimStart text.toList) :
    leadingFloat text =
      (takeDecimal? (Text.trimStart text.toList)).elim nan fun d => (readFloat? d).getD nan := by
  have hfalse : ∀ sign, IsSign sign →
      (sign ++ "Infinity".toList).isPrefixOf (Text.trimStart text.toList) = false := by
    intro sign hsign
    rw [← Bool.not_eq_true, List.isPrefixOf_iff_prefix]
    exact hno sign hsign
  have hplain : "Infinity".toList.isPrefixOf _ = false := hfalse [] (.inl rfl)
  have hplus : "+Infinity".toList.isPrefixOf _ = false := hfalse ['+'] (.inr (.inl rfl))
  have hminus : "-Infinity".toList.isPrefixOf _ = false := hfalse ['-'] (.inr (.inr rfl))
  unfold leadingFloat
  simp only [hplain, hplus, hminus, Bool.or_self, Bool.false_eq_true, if_false]
  cases takeDecimal? (Text.trimStart text.toList) <;> rfl

theorem leadingFloat_infinity {text : String} (hsign : IsSign sign)
    (hinitial : sign ++ "Infinity".toList <+: Text.trimStart text.toList) :
    leadingFloat text = ofChars (sign ++ "Infinity".toList) := by
  have hpositive : ofChars "Infinity".toList = infinity ∧ ofChars "+Infinity".toList =
    infinity := by
    decide +kernel
  have hnegative : ofChars "-Infinity".toList = negInfinity := by decide +kernel
  obtain ⟨rest, hrest⟩ := hinitial
  unfold leadingFloat
  rw [← hrest]
  rcases hsign with rfl | rfl | rfl
  · exact hpositive.1.symm
  · exact hpositive.2.symm
  · exact hnegative.symm

theorem leadingFloat_cases (text : String) :
    (∃ p, IsLongest IsNumeric (Text.trimStart text.toList) p ∧
      leadingFloat text = ofText (String.ofList p)) ∨
    (∀ p, p <+: Text.trimStart text.toList → ¬IsNumeric p) ∧ leadingFloat text = nan := by
  unfold ofText
  by_cases hinfinity : ∃ sign, IsSign sign ∧
      sign ++ "Infinity".toList <+: Text.trimStart text.toList
  · obtain ⟨sign, hsign, hinitial⟩ := hinfinity
    refine .inl ⟨_, isLongest_infinity hsign hinitial, ?_⟩
    rw [String.toList_ofList, leadingFloat_infinity hsign hinitial]
  · have hno : ∀ sign, IsSign sign →
        ¬sign ++ "Infinity".toList <+: Text.trimStart text.toList :=
      fun sign hsign hinitial => hinfinity ⟨sign, hsign, hinitial⟩
    rw [leadingFloat_decimal hno]
    cases hd : takeDecimal? (Text.trimStart text.toList) with
    | none => exact .inr ⟨not_isNumeric_of_takeDecimal? hno hd, rfl⟩
    | some d =>
      refine .inl ⟨d, isLongest_takeDecimal? hno hd, ?_⟩
      obtain ⟨-, sign, w, hsign, hw, rfl⟩ := of_takeDecimal? hd
      rw [String.toList_ofList, ofChars_decimal_sign hsign hw]
      rfl

end Values

section Whole

theorem IsNumeric.isBlank {w : List Char} (h : IsNumeric w) : ∀ c ∈ w, Text.isBlank c = false := by
  have hword : ∀ c ∈ "Infinity".toList, Text.isBlank c = false := by
    intro c hc
    obtain rfl | rfl | rfl | rfl | rfl | rfl :
        c = 'I' ∨ c = 'n' ∨ c = 'f' ∨ c = 'i' ∨ c = 't' ∨ c = 'y' := by
      simpa [or_left_comm, or_comm, or_assoc] using hc
    all_goals exact isBlank_of_visible (by decide) (by decide)
  have hsigns : ∀ sign, IsSign sign → ∀ c ∈ sign, Text.isBlank c = false :=
    fun sign hsign c hc => isBlank_of_isDecimalChar (hsign.isDecimalChar c hc)
  cases h with
  | infinity hsign => exact List.forall_mem_append.2 ⟨hsigns _ hsign, hword⟩
  | decimal hsign hw =>
    exact List.forall_mem_append.2
      ⟨hsigns _ hsign, fun c hc => isBlank_of_isDecimalChar (hw.isDecimalChar c hc)⟩

theorem isLongest_of_blank {w blanks : List Char} (hw : IsNumeric w)
    (hblanks : ∀ c ∈ blanks, Text.isBlank c = true) : IsLongest IsNumeric (w ++ blanks) w := by
  refine ⟨List.prefix_append w blanks, hw, fun q hq hnumeric => ?_⟩
  by_contra hlonger
  obtain ⟨behind, rfl⟩ := List.prefix_of_prefix_length_le (List.prefix_append w blanks) hq
    (Nat.le_of_not_le hlonger)
  have hinitial := (List.prefix_append_right_inj w).1 hq
  cases behind with
  | nil => simp at hlonger
  | cons c cs =>
    have hblank := hblanks c (hinitial.subset List.mem_cons_self)
    rw [hnumeric.isBlank c (by simp)] at hblank
    cases hblank

theorem trimStart_eq_trim_append (cs : List Char) :
    ∃ blanks, (∀ c ∈ blanks, Text.isBlank c = true) ∧
      Text.trimStart cs = Text.trim cs ++ blanks := by
  refine ⟨((Text.trimStart cs).reverse.takeWhile Text.isBlank).reverse, fun c hc => ?_, ?_⟩
  · exact List.mem_takeWhile_imp (List.mem_reverse.1 hc)
  · unfold Text.trim Text.trimEnd
    rw [← List.reverse_append, List.takeWhile_append_dropWhile, List.reverse_reverse]

theorem infinityWord?_eq_some {cs : List Char} {x : Float} (h : infinityWord? cs = some x) :
    IsNumeric cs := by
  unfold infinityWord? at h
  split at h
  next hcs =>
    rcases hcs with rfl | rfl
    · exact .infinity (.inl rfl)
    · exact .infinity (.inr (.inl rfl))
  next =>
    split at h
    next hcs =>
      subst hcs
      exact .infinity (.inr (.inr rfl))
    next => cases h

theorem specialOf?_of_all {cs : List Char} (h : ∀ c ∈ cs, isDecimalChar c = true)
    (negative : Bool) : specialOf? negative (cs.map Char.toLower) = none := by
  have hmarks : ['.', 'e', 'E', '+', '-'].all (fun c => c.toLower != 'i' && c.toLower != 'n') =
      true := by decide
  cases cs with
  | nil => rfl
  | cons c cs =>
    have hc := h c List.mem_cons_self
    by_cases hdigit : isDigit c = true
    · exact specialOf?_of_isDigit hdigit cs negative
    · have hmem : c ∈ ['.', 'e', 'E', '+', '-'] := by
        simpa [isDecimalChar, hdigit, or_assoc] using hc
      have hne := List.all_eq_true.1 hmarks c hmem
      simp only [Bool.and_eq_true, bne_iff_ne] at hne
      exact specialOf?_of_head hne.1 hne.2 cs negative

theorem isNumeric_of_readFloat? {cs : List Char} (hall : ∀ c ∈ cs, isDecimalChar c = true)
    (h : (readFloat? cs).isSome = true) : IsNumeric cs := by
  obtain ⟨sign, hsign, hcs⟩ := exists_sign cs
  rw [hcs] at hall
  have hrest := (List.forall_mem_append.1 hall).2
  unfold readFloat? at h
  dsimp only at h
  rw [specialOf?_of_all hrest, Option.isSome_map, isSome_read?_iff] at h
  rw [hcs]
  exact .decimal hsign h

theorem hasRadixPrefix_of_splitRadix? {cs : List Char} (h : (splitRadix? cs).isSome = true) :
    HasRadixPrefix cs := by
  unfold splitRadix? at h
  split at h
  next c cs =>
    rw [Option.isSome_map] at h
    obtain ⟨radix, hmark⟩ := Option.isSome_iff_exists.1 h
    refine ⟨c, cs, rfl, ?_⟩
    obtain ⟨-, rfl | rfl⟩ | ⟨-, rfl | rfl⟩ | ⟨-, rfl | rfl⟩ :=
      Lexeme.radixOfMark?_eq_some hmark <;> decide
  next => cases h

theorem isNumeric_of_ofChars {text : List Char} (hnumber : isNaN (ofChars text) = false)
    (hne : Text.trim text ≠ []) (hradix : ¬HasRadixPrefix (Text.trim text)) :
    IsNumeric (Text.trim text) := by
  have hnan : isNaN nan = true := by decide
  have hempty : (Text.trim text).isEmpty = false := by simpa using hne
  have hsplit : splitRadix? (Text.trim text) = none := by
    rw [← Option.not_isSome_iff_eq_none]
    exact fun h => hradix (hasRadixPrefix_of_splitRadix? h)
  unfold ofChars at hnumber
  simp only [hempty, Bool.false_eq_true, if_false, hsplit] at hnumber
  split at hnumber
  next x hword => exact infinityWord?_eq_some hword
  next =>
    split at hnumber
    next hall =>
      refine isNumeric_of_readFloat? (List.all_eq_true.1 hall) ?_
      cases hread : readFloat? (Text.trim text) with
      | none =>
        rw [hread, Option.getD_none, hnan] at hnumber
        cases hnumber
      | some x => rfl
    next =>
      rw [hnan] at hnumber
      cases hnumber

theorem ofChars_trim {text : List Char} (h : IsNumeric (Text.trim text)) :
    ofChars (Text.trim text) = ofChars text := by
  unfold ofChars
  rw [trim_of_not_blank h.isBlank]

end Whole

/-- The number at the start of a text is the value of the longest number that the text without its
leading blanks begins with, or not a number where it begins with none. A text that is a number as a
whole, and is neither blank nor announces its radix, is read the same from its start. -/
theorem leading_float_is_longest_number (text : String) :
    ((∃ p, IsLongest IsNumeric (Text.trimStart text.toList) p ∧
        leadingFloat text = ofText (String.ofList p)) ∨
      (∀ p, p <+: Text.trimStart text.toList → ¬IsNumeric p) ∧ leadingFloat text = nan) ∧
    (isNaN (ofText text) = false → Text.trim text.toList ≠ [] →
      ¬HasRadixPrefix (Text.trim text.toList) → leadingFloat text = ofText text) := by
  refine ⟨leadingFloat_cases text, fun hnumber hne hradix => ?_⟩
  have hnumeric := isNumeric_of_ofChars hnumber hne hradix
  obtain ⟨blanks, hblanks, htext⟩ := trimStart_eq_trim_append text.toList
  have hwhole := isLongest_of_blank hnumeric hblanks
  rw [← htext] at hwhole
  rcases leadingFloat_cases text with ⟨p, hp, hvalue⟩ | ⟨hnone, -⟩
  · rw [hvalue, hp.unique hwhole]
    unfold ofText
    rw [String.toList_ofList]
    exact ofChars_trim hnumeric
  · exact absurd hnumeric (hnone _ hwhole.begins)

/-- An exponent that backs off behind a fraction alone, and an exponent behind a bare point. -/
theorem leading_float_is_longest_number_backs_off :
    (∃ p, IsLongest IsNumeric (Text.trimStart "\t+.5e-".toList) p ∧
      leadingFloat "\t+.5e-" = ofText (String.ofList p)) ∧
    leadingFloat " 5.e3\n" = ofText " 5.e3\n" ∧ (ofText " 5.e3\n" == 5000) = true := by
  have htrim : Text.trim " 5.e3\n".toList = ['5', '.', 'e', '3'] := by decide +kernel
  refine ⟨?_, ?_, by decide +kernel⟩
  · rcases (leading_float_is_longest_number "\t+.5e-").1 with h | ⟨-, hnan⟩
    · exact h
    · have hnumber : isNaN (leadingFloat "\t+.5e-") = false := by decide +kernel
      rw [hnan] at hnumber
      exact absurd hnumber (by decide +kernel)
  · apply (leading_float_is_longest_number " 5.e3\n").2 (by decide +kernel)
    · rw [htrim]
      exact nofun
    · rw [htrim]
      rintro ⟨mark, rest, h, -⟩
      cases h

end ScriptEngine.Numeric
