import Mathlib.Data.List.TakeWhile
import ScriptEngine.Proofs.Token.Lexemes

/-!
# The lexical grammar

Which spellings are lexemes, said without reference to how they are looked for: words, numbers and
symbols, and strings, which end with their quote or with the text. Where the text does not begin
with what is refused, the first lexeme is the longest spelling that it begins with. A part of a
number is taken greedily; the part behind it never begins with a character that would have made it
longer.
-/

namespace ScriptEngine

open Text

namespace Lexeme

def IsWord (w : List Char) : Prop :=
  ∃ c cs, w = c :: cs ∧ (isLetter c = true ∨ c = '_' ∨ c = '$') ∧
    ∀ d ∈ cs, isAlphanumeric d = true ∨ d = '_' ∨ d = '$'

def IsDigits (w : List Char) : Prop :=
  w ≠ [] ∧ ∀ c ∈ w, Numeric.isDigit c = true

def IsFraction (w : List Char) : Prop :=
  ∃ ds, IsDigits ds ∧ w = '.' :: ds

def IsExponent (w : List Char) : Prop :=
  ∃ mark sign ds, (mark = 'e' ∨ mark = 'E') ∧ (sign = [] ∨ sign = ['+'] ∨ sign = ['-']) ∧
    IsDigits ds ∧ w = mark :: (sign ++ ds)

def IsDecimal (w : List Char) : Prop :=
  ∃ whole fraction exponent, IsDigits whole ∧ (fraction = [] ∨ IsFraction fraction) ∧
    (exponent = [] ∨ IsExponent exponent) ∧ w = whole ++ fraction ++ exponent

inductive IsRadix : NumberForm → List Char → Prop
  | hexadecimal {mark : Char} {ds : List Char} : mark = 'x' ∨ mark = 'X' → ds ≠ [] →
      (∀ d ∈ ds, Numeric.isRadixDigit 16 d = true) → IsRadix .hexadecimal ('0' :: mark :: ds)
  | octal {mark : Char} {ds : List Char} : mark = 'o' ∨ mark = 'O' →
      (∀ d ∈ ds, Numeric.isRadixDigit 8 d = true) → IsRadix .octal ('0' :: mark :: ds)
  | binary {mark : Char} {ds : List Char} : mark = 'b' ∨ mark = 'B' →
      (∀ d ∈ ds, Numeric.isRadixDigit 2 d = true) → IsRadix .binary ('0' :: mark :: ds)

/-- The spellings of a kind of token, strings and the end of input left out. A word is a keyword
exactly when it is reserved, and then it is the fixed text of its kind. -/
inductive Spells : Token.Kind → List Char → Prop
  | keyword {k : Keyword} {w : List Char} : IsWord w → String.ofList w ∈ Keyword.reserved →
      (Token.Kind.keyword k).fixedText? = some (String.ofList w) → Spells (.keyword k) w
  | identifier {w : List Char} : IsWord w → String.ofList w ∉ Keyword.reserved →
      Spells (.identifier (String.ofList w)) w
  | decimal {w : List Char} : IsDecimal w → Spells (.number .decimal) w
  | radix {form : NumberForm} {w : List Char} : IsRadix form w → Spells (.number form) w
  | symbol (s : Symbol) : Spells (.symbol s) s.chars

def IsSpelling (w : List Char) : Prop :=
  ∃ kind, Spells kind w

/-- Characters behind an opening quote that do not close the string, and what they stand for. -/
inductive Unclosed (quote : Char) : List Char → List Char → Prop
  | nil : Unclosed quote [] []
  | plain {c : Char} {cs value : List Char} : c ≠ '\\' → c ≠ quote → Unclosed quote cs value →
      Unclosed quote (c :: cs) (c :: value)
  | escape {c : Char} {cs value : List Char} : Unclosed quote cs value →
      Unclosed quote ('\\' :: c :: cs) (unescape c :: value)

/-- The rest of a string behind its opening quote: up to the first quote that is not escaped, or the
whole text, which may end with a backslash. -/
inductive EndsString (quote : Char) : List Char → List Char → List Char → Prop
  | closed {cs value rest : List Char} : Unclosed quote cs value →
      EndsString quote (cs ++ [quote]) value rest
  | atEnd {cs value : List Char} : Unclosed quote cs value → EndsString quote cs value []
  | atBackslash {cs value : List Char} : Unclosed quote cs value →
      EndsString quote (cs ++ ['\\']) value []

/-- The first lexeme of a text: a string, or the longest spelling that the text begins with. -/
inductive Heads : Token.Kind → List Char → List Char → Prop
  | string {quote : Char} {cs value rest : List Char} : isQuote quote = true →
      EndsString quote cs value rest → Heads (.string (String.ofList value)) (quote :: cs) rest
  | longest {kind : Token.Kind} {w rest : List Char} : Spells kind w →
      (∀ v, v <+: w ++ rest → IsSpelling v → v.length ≤ w.length) → Heads kind w rest

/-- A text that has no first lexeme: it begins with a character that begins none, or with the mark
of a hexadecimal number that is not followed by one of its digits. -/
inductive Refuses : List Char → Prop
  | character {c : Char} {cs : List Char} : isQuote c = false →
      (∀ w, ¬IsSpelling (c :: w)) → Refuses (c :: cs)
  | hexadecimal {mark : Char} {cs : List Char} : mark = 'x' ∨ mark = 'X' →
      (∀ d ∈ cs.head?, Numeric.isRadixDigit 16 d = false) → Refuses ('0' :: mark :: cs)

section Characters

theorem covers_eq_of_lt (set : CharSet) {bound n : Nat} (hn : n < bound) :
    set.covers n =
      (set.ranges.toList.filter (·.1 < bound)).any fun r => r.1 ≤ n && n ≤ r.2 := by
  rw [Bool.eq_iff_iff, CharSet.covers_iff, List.any_eq_true]
  simp only [List.mem_filter, decide_eq_true_eq, Bool.and_eq_true, Array.mem_toList_iff]
  constructor
  · rintro ⟨r, hr, hlow, hhigh⟩
    exact ⟨r, ⟨hr, by omega⟩, hlow, hhigh⟩
  · rintro ⟨r, ⟨hr, -⟩, hlow, hhigh⟩
    exact ⟨r, hr, hlow, hhigh⟩

theorem isLetter_ascii {c : Char} (hc : c.toNat < 128) : isLetter c = c.isAlpha := by
  have hranges : letters.ranges.toList.filter (·.1 < 128) = [(65, 90), (97, 122)] := by
    decide +kernel
  have hascii : ∀ n < 128, ([(65, 90), (97, 122)].any fun r : Nat × Nat => r.1 ≤ n && n ≤ r.2) =
      (Char.ofNat n).isAlpha := by
    decide
  have hchar := hascii c.toNat hc
  rw [Char.ofNat_toNat] at hchar
  rw [isLetter, CharSet.contains, covers_eq_of_lt _ hc, hranges, hchar]

theorem isAlphanumeric_ascii {c : Char} (hc : c.toNat < 128) : isAlphanumeric c = c.isAlphanum := by
  have hranges : numerals.ranges.toList.filter (·.1 < 128) = [(48, 57)] := by decide
  have hascii : ∀ n < 128, ([(48, 57)].any fun r : Nat × Nat => r.1 ≤ n && n ≤ r.2) =
      (Char.ofNat n).isDigit := by
    decide
  have hchar := hascii c.toNat hc
  rw [Char.ofNat_toNat] at hchar
  rw [isAlphanumeric, isLetter_ascii hc, isNumeral, CharSet.contains, covers_eq_of_lt _ hc, hranges,
    hchar, Char.isAlphanum]

/-- The two ways to tell what begins a word agree. -/
theorem isWordStart_iff (c : Char) :
    isWordStart c = true ↔ isLetter c = true ∨ c = '_' ∨ c = '$' := by
  unfold isWordStart
  by_cases hc : c.toNat < 128
  · simp [hc, isLetter_ascii hc, or_assoc]
  · rw [if_neg hc]
    refine ⟨.inl, ?_⟩
    rintro (h | rfl | rfl)
    · exact h
    · exact absurd (by decide) hc
    · exact absurd (by decide) hc

theorem isWordPart_iff (c : Char) :
    isWordPart c = true ↔ isAlphanumeric c = true ∨ c = '_' ∨ c = '$' := by
  unfold isWordPart
  by_cases hc : c.toNat < 128
  · simp [hc, isAlphanumeric_ascii hc, or_assoc]
  · rw [if_neg hc]
    refine ⟨.inl, ?_⟩
    rintro (h | rfl | rfl)
    · exact h
    · exact absurd (by decide) hc
    · exact absurd (by decide) hc

theorem isWord_cons_iff {c : Char} {cs : List Char} :
    IsWord (c :: cs) ↔ isWordStart c = true ∧ ∀ d ∈ cs, isWordPart d = true := by
  simp only [isWordStart_iff, isWordPart_iff]
  constructor
  · rintro ⟨_, _, ⟨⟩, hc, hcs⟩
    exact ⟨hc, hcs⟩
  · rintro ⟨hc, hcs⟩
    exact ⟨c, cs, rfl, hc, hcs⟩

end Characters

section Munching

/-- A function takes the longest start of a text with a property. A shorter start with the property
is followed by a character of a given kind. -/
structure Munches (P : List Char → Prop) (F : List Char → List Char) (C : Char → Prop) : Prop where
  fits : ∀ cs, P (F cs)
  longest : ∀ w rest, P w → F (w ++ rest) = w ∨
    w.length < (F (w ++ rest)).length ∧ ∃ c ∈ rest.head?, C c

theorem munches_takeWhile (p : Char → Bool) :
    Munches (fun w => ∀ c ∈ w, p c = true) (List.takeWhile p) fun c => p c = true where
  fits _ _ hc := List.mem_takeWhile_imp hc
  longest w rest hw := by
    rw [List.takeWhile_append_of_pos hw]
    cases rest with
    | nil => simp
    | cons c rest =>
      by_cases hc : p c = true
      · simp [hc]
      · simp [hc]

theorem Munches.then {P Q : List Char → Prop} {F G : List Char → List Char} {C D : Char → Prop}
    (hF : Munches P F C) (hG : Munches Q G D) (hstart : ∀ c w, Q (c :: w) → ¬C c) :
    Munches (fun w => ∃ u v, P u ∧ Q v ∧ w = u ++ v)
      (fun cs => F cs ++ G (cs.drop (F cs).length)) fun c => C c ∨ D c where
  fits cs := ⟨_, _, hF.fits cs, hG.fits _, rfl⟩
  longest := by
    rintro w rest ⟨u, v, hu, hv, rfl⟩
    rw [List.append_assoc]
    rcases hF.longest u (v ++ rest) hu with hf | ⟨hlt, c, hc, hC⟩
    · rw [hf, List.drop_left]
      rcases hG.longest v rest hv with hg | ⟨hlt, c, hc, hD⟩
      · exact .inl (by rw [hg])
      · refine .inr ⟨?_, c, hc, .inr hD⟩
        rw [List.length_append, List.length_append]
        omega
    · cases v with
      | nil =>
        refine .inr ⟨?_, c, hc, .inl hC⟩
        rw [List.append_nil, List.length_append]
        rw [List.nil_append] at hlt
        rw [List.nil_append]
        omega
      | cons b v =>
        obtain rfl : b = c := by simpa using hc
        exact absurd hC (hstart b v hv)

theorem Munches.le {P : List Char → Prop} {F : List Char → List Char} {C : Char → Prop}
    (h : Munches P F C) {w cs : List Char} (hw : P w) (hinitial : w <+: cs) :
    w.length ≤ (F cs).length := by
  obtain ⟨rest, rfl⟩ := hinitial
  rcases h.longest w rest hw with heq | hlt
  · rw [heq]
  · omega

theorem munches_fraction :
    Munches (fun w => w = [] ∨ IsFraction w) takeFraction
      fun c => c = '.' ∨ Numeric.isDigit c = true where
  fits cs := by
    cases cs with
    | nil => exact .inl rfl
    | cons c cs =>
      by_cases hc : c = '.'
      · subst hc
        rw [takeFraction_point]
        split
        · exact .inl rfl
        next hne =>
          refine .inr ⟨_, ⟨by simpa using hne, ?_⟩, rfl⟩
          exact fun d hd => List.mem_takeWhile_imp hd
      · exact .inl (takeFraction_of_ne hc cs)
  longest := by
    rintro w rest (rfl | ⟨ds, ⟨hne, hds⟩, rfl⟩)
    · cases rest with
      | nil => exact .inl rfl
      | cons c rest =>
        by_cases hc : c = '.'
        · subst hc
          rw [List.nil_append, takeFraction_point]
          split
          · exact .inl rfl
          · exact .inr ⟨by simp, '.', rfl, .inl rfl⟩
        · exact .inl (takeFraction_of_ne hc rest)
    · rw [List.cons_append, takeFraction_point]
      rcases (munches_takeWhile Numeric.isDigit).longest ds rest hds with heq | ⟨hlt, c, hc, hdigit⟩
      · rw [heq, if_neg (by simpa using hne)]
        exact .inl rfl
      · have hempty : ¬((ds ++ rest).takeWhile Numeric.isDigit).isEmpty = true := by
          intro h
          rw [List.isEmpty_iff.mp h] at hlt
          exact absurd hlt (Nat.not_lt_zero _)
        rw [if_neg hempty]
        exact .inr ⟨Nat.succ_lt_succ hlt, c, hc, .inr hdigit⟩

open Numeric.takeExponent (mark) in
theorem fits_mark (e : Char) {sign : List Char} (hsign : sign = [] ∨ sign = ['+'] ∨ sign = ['-'])
    (cs : List Char) : mark e sign cs = [] ∨ IsExponent (mark e sign cs) := by
  unfold mark
  dsimp only
  split
  next hmark =>
    refine .inr ⟨e, sign, _, hmark.1, hsign, ⟨by simpa using hmark.2, ?_⟩, rfl⟩
    exact fun d hd => List.mem_takeWhile_imp hd
  next => exact .inl rfl

theorem takeExponent_of_sign {e : Char} {sign ds : List Char}
    (hsign : sign = [] ∨ sign = ['+'] ∨ sign = ['-']) (hds : IsDigits ds) (rest : List Char) :
    Numeric.takeExponent (e :: (sign ++ ds) ++ rest) =
      Numeric.takeExponent.mark e sign (ds ++ rest) := by
  rcases hsign with rfl | rfl | rfl
  · obtain ⟨d, ds, rfl⟩ := List.exists_cons_of_ne_nil hds.1
    refine takeExponent_of_ne ?_ e _
    have hdigit := hds.2 d List.mem_cons_self
    rintro (rfl | rfl)
    · exact absurd hdigit (by decide)
    · exact absurd hdigit (by decide)
  · rfl
  · rfl

theorem munches_exponent :
    Munches (fun w => w = [] ∨ IsExponent w) Numeric.takeExponent
      fun c => c = 'e' ∨ c = 'E' ∨ Numeric.isDigit c = true where
  fits cs := by
    match cs with
    | [] => exact .inl rfl
    | [e] => exact fits_mark e (.inl rfl) []
    | e :: c :: cs =>
      by_cases hc : c = '+' ∨ c = '-'
      · rw [takeExponent_sign hc]
        refine fits_mark e (.inr ?_) cs
        rcases hc with rfl | rfl
        · exact .inl rfl
        · exact .inr rfl
      · rw [takeExponent_of_ne hc]
        exact fits_mark e (.inl rfl) (c :: cs)
  longest := by
    rintro w rest (rfl | ⟨e, sign, ds, he, hsign, hds, rfl⟩)
    · cases rest with
      | nil => exact .inl rfl
      | cons c rest =>
        by_cases hc : c = 'e' ∨ c = 'E'
        · by_cases hnil : Numeric.takeExponent (c :: rest) = []
          · exact .inl hnil
          · refine .inr ⟨List.length_pos_iff.mpr hnil, c, rfl, ?_⟩
            rcases hc with rfl | rfl
            · exact .inl rfl
            · exact .inr (.inl rfl)
        · obtain ⟨s, r, -, hmark⟩ := takeExponent_cases c rest
          simp only [not_or] at hc
          exact .inl (hmark.trans (mark_of_ne hc.1 hc.2))
    · rw [takeExponent_of_sign hsign hds]
      unfold Numeric.takeExponent.mark
      dsimp only
      rcases (munches_takeWhile Numeric.isDigit).longest ds rest hds.2 with
        heq | ⟨hlt, c, hc, hdigit⟩
      · rw [heq, if_pos ⟨he, by simpa using hds.1⟩]
        exact .inl rfl
      · have hne : (ds ++ rest).takeWhile Numeric.isDigit ≠ [] := by
          intro h
          rw [h] at hlt
          exact absurd hlt (Nat.not_lt_zero _)
        rw [if_pos ⟨he, by simpa using hne⟩]
        refine .inr ⟨?_, c, hc, .inr (.inr hdigit)⟩
        simp only [List.cons_append, List.length_cons, List.length_append]
        omega

end Munching

section Decimals

theorem isDecimal_takeDecimal {c : Char} (hc : Numeric.isDigit c = true) (cs : List Char) :
    IsDecimal (takeDecimal (c :: cs)) := by
  refine ⟨(c :: cs).takeWhile Numeric.isDigit, _, _, ⟨by simp [hc], ?_⟩,
    munches_fraction.fits _, munches_exponent.fits _, rfl⟩
  exact fun d hd => List.mem_takeWhile_imp hd

theorem length_le_takeDecimal {w cs : List Char} (hw : IsDecimal w) (hinitial : w <+: cs) :
    w.length ≤ (takeDecimal cs).length := by
  obtain ⟨whole, fraction, exponent, hwhole, hfraction, hexponent, rfl⟩ := hw
  have hmantissa := (munches_takeWhile Numeric.isDigit).then munches_fraction (by
    rintro c w (h | ⟨ds, -, h⟩)
    · cases h
    · cases h
      decide)
  have hdecimal := hmantissa.then munches_exponent (by
    rintro c w (h | ⟨e, sign, ds, he, -, -, h⟩)
    · cases h
    · cases h
      rcases he with rfl | rfl
      · decide
      · decide)
  exact hdecimal.le ⟨_, _, ⟨_, _, hwhole.2, hfraction, rfl⟩, hexponent, rfl⟩ hinitial

theorem isDigit_of_isDecimal {c : Char} {w : List Char} (h : IsDecimal (c :: w)) :
    Numeric.isDigit c = true := by
  obtain ⟨whole, fraction, exponent, ⟨hne, hwhole⟩, -, -, hw⟩ := h
  obtain ⟨d, ds, rfl⟩ := List.exists_cons_of_ne_nil hne
  cases hw
  exact hwhole c List.mem_cons_self

end Decimals

section Radices

variable {c : Char} {radix : Nat}

theorem radixOfMark?_eq_some (h : Numeric.radixOfMark? c = some radix) :
    radix = 16 ∧ (c = 'x' ∨ c = 'X') ∨ radix = 8 ∧ (c = 'o' ∨ c = 'O') ∨
      radix = 2 ∧ (c = 'b' ∨ c = 'B') := by
  unfold Numeric.radixOfMark? at h
  split at h
  next hc => exact .inl ⟨(Option.some.inj h).symm, hc⟩
  next =>
    split at h
    next hc => exact .inr (.inl ⟨(Option.some.inj h).symm, hc⟩)
    next =>
      split at h
      next hc => exact .inr (.inr ⟨(Option.some.inj h).symm, hc⟩)
      next => cases h

theorem isRadix_iff {form : NumberForm} {w : List Char} :
    IsRadix form w ↔ ∃ mark radix ds, Numeric.radixOfMark? mark = some radix ∧
      (∀ d ∈ ds, Numeric.isRadixDigit radix d = true) ∧ (radix = 16 → ds ≠ []) ∧
      form = NumberForm.ofRadix radix ∧ w = '0' :: mark :: ds := by
  constructor
  · intro h
    cases h with
    | hexadecimal hmark hne hds =>
      refine ⟨_, 16, _, ?_, hds, fun _ => hne, rfl, rfl⟩
      rcases hmark with rfl | rfl <;> rfl
    | octal hmark hds =>
      refine ⟨_, 8, _, ?_, hds, nofun, rfl, rfl⟩
      rcases hmark with rfl | rfl <;> rfl
    | binary hmark hds =>
      refine ⟨_, 2, _, ?_, hds, nofun, rfl, rfl⟩
      rcases hmark with rfl | rfl <;> rfl
  · rintro ⟨mark, radix, ds, hmark, hds, hne, rfl, rfl⟩
    obtain ⟨rfl, hc⟩ | ⟨rfl, hc⟩ | ⟨rfl, hc⟩ := radixOfMark?_eq_some hmark
    · exact .hexadecimal hc (hne rfl) hds
    · exact .octal hc hds
    · exact .binary hc hds

theorem takeDecimal_of_mark (h : Numeric.radixOfMark? c = some radix) (cs : List Char) :
    takeDecimal ('0' :: c :: cs) = ['0'] := by
  have hmark : Numeric.isDigit c = false ∧ c ≠ '.' ∧ c ≠ 'e' ∧ c ≠ 'E' := by
    obtain ⟨-, rfl | rfl⟩ | ⟨-, rfl | rfl⟩ | ⟨-, rfl | rfl⟩ := radixOfMark?_eq_some h <;> decide
  obtain ⟨hdigit, hpoint, he, he'⟩ := hmark
  obtain ⟨s, r, -, hexponent⟩ := takeExponent_cases c cs
  have hwhole : ('0' :: c :: cs).takeWhile Numeric.isDigit = ['0'] := by
    rw [List.takeWhile_cons_of_pos (by decide), List.takeWhile_cons_of_neg (by simp [hdigit])]
  unfold takeDecimal
  simp only [hwhole, List.length_singleton, List.drop_succ_cons, List.drop_zero,
    takeFraction_of_ne hpoint, List.append_nil, hexponent, mark_of_ne he he']

end Radices

section Beginnings

variable {c : Char}

theorem isWordStart_of_isDigit (h : Numeric.isDigit c = true) : isWordStart c = false := by
  have hrange : 48 ≤ c.toNat ∧ c.toNat ≤ 57 := by
    simpa [Numeric.isDigit, Char.le_def, UInt32.le_iff_toNat_le] using h
  have hall : ∀ n ≤ 57, 48 ≤ n → isWordStart (Char.ofNat n) = false := by decide
  have hc := hall c.toNat hrange.2 hrange.1
  rwa [Char.ofNat_toNat] at hc

theorem symbol_head (s : Symbol) : ∃ b bs, s.chars = b :: bs ∧ isQuote b = false ∧
    Numeric.isDigit b = false ∧ isWordStart b = false := by
  cases s <;> exact ⟨_, _, rfl, by decide⟩

theorem exists_symbol_singleton {s : Symbol} {b : Char} {bs : List Char} (h : s.chars = b :: bs) :
    ∃ s' : Symbol, s'.chars = [b] := by
  have hall : ∀ s ∈ Symbol.all, Symbol.all.any (fun s' => s'.chars == s.chars.take 1) = true := by
    decide
  obtain ⟨s', -, hs'⟩ := List.any_eq_true.mp (hall s (Symbol.mem_all s))
  refine ⟨s', (beq_iff_eq.mp hs').trans ?_⟩
  rw [h, List.take_succ_cons, List.take_zero]

theorem isSpelling_cases {w : List Char} (h : IsSpelling (c :: w)) :
    IsWord (c :: w) ∧ isWordStart c = true ∨
      (IsDecimal (c :: w) ∨ ∃ form, IsRadix form (c :: w)) ∧ Numeric.isDigit c = true ∨
        ∃ s : Symbol, s.chars = c :: w := by
  obtain ⟨kind, h⟩ := h
  generalize hcw : c :: w = cw at h
  cases h with
  | keyword hword | identifier hword =>
    subst hcw
    exact .inl ⟨hword, (isWord_cons_iff.mp hword).1⟩
  | decimal hdecimal =>
    subst hcw
    exact .inr (.inl ⟨.inl hdecimal, isDigit_of_isDecimal hdecimal⟩)
  | radix hradix =>
    subst hcw
    obtain ⟨_, _, _, -, -, -, -, hw⟩ := isRadix_iff.mp hradix
    cases hw
    exact .inr (.inl ⟨.inr ⟨_, hradix⟩, rfl⟩)
  | symbol s => exact .inr (.inr ⟨s, rfl⟩)

theorem ne_nil_of_isSpelling {w : List Char} (h : IsSpelling w) : w ≠ [] := by
  rintro rfl
  obtain ⟨kind, h⟩ := h
  generalize hnil : [] = w at h
  cases h with
  | keyword hword | identifier hword =>
    obtain ⟨_, _, h, -⟩ := hword
    rw [h] at hnil
    cases hnil
  | decimal hdecimal =>
    obtain ⟨whole, _, _, ⟨hne, -⟩, -, -, rfl⟩ := hdecimal
    simp [hne] at hnil
  | radix hradix =>
    obtain ⟨_, _, _, -, -, -, -, rfl⟩ := isRadix_iff.mp hradix
    cases hnil
  | symbol s => exact chars_ne_nil s hnil.symm

end Beginnings

section First

variable {c : Char} {cs : List Char} {lx : Lexeme}

theorem spells_word (h : IsWord (cs.takeWhile isWordPart)) :
    Spells (word cs).kind (word cs).text := by
  unfold word
  dsimp only
  split
  next k hk =>
    refine .keyword h (Keyword.mem_reserved_iff.mpr ⟨k, hk⟩) ?_
    rw [Token.Kind.fixedText?, Keyword.text_of_ofText? hk]
  next hnone => exact .identifier h (Keyword.ofText?_eq_none_iff.mp hnone)

theorem isWord_takeWhile (hc : isWordStart c = true) :
    IsWord ((c :: cs).takeWhile isWordPart) := by
  rw [List.takeWhile_cons_of_pos (isWordPart_of_isWordStart hc)]
  exact isWord_cons_iff.mpr ⟨hc, fun d hd => List.mem_takeWhile_imp hd⟩

/-- Of all spellings that a text can begin with, only those of the same sort count. -/
theorem longest_of_sort {w : List Char} {n : Nat}
    (hword : ∀ v, IsWord (c :: v) → isWordStart c = true → c :: v <+: w → (c :: v).length ≤ n)
    (hnumber : ∀ v, IsDecimal (c :: v) ∨ (∃ form, IsRadix form (c :: v)) →
      Numeric.isDigit c = true → c :: v <+: w → (c :: v).length ≤ n)
    (hsymbol : ∀ s : Symbol, s.chars.head? = some c → s.chars <+: w → s.chars.length ≤ n)
    (hw : w.head? = some c) : ∀ v, v <+: w → IsSpelling v → v.length ≤ n := by
  intro v hinitial hv
  obtain ⟨b, v, rfl⟩ := List.exists_cons_of_ne_nil (ne_nil_of_isSpelling hv)
  obtain ⟨t, rfl⟩ := List.head?_eq_some_iff.mp hw
  obtain rfl : b = c := (List.cons_prefix_cons.mp hinitial).1
  rcases isSpelling_cases hv with ⟨hv, hb⟩ | ⟨hv, hb⟩ | ⟨s, hs⟩
  · exact hword v hv hb hinitial
  · exact hnumber v hv hb hinitial
  · rw [← hs] at hinitial ⊢
    exact hsymbol s (by rw [hs]; rfl) hinitial

theorem heads_word (hc : isWordStart c = true) {t r : List Char}
    (ht : (word (c :: (t ++ r))).text = c :: t) :
    Heads (word (c :: (t ++ r))).kind (c :: t) r := by
  refine .longest (ht ▸ spells_word (isWord_takeWhile hc)) ?_
  refine longest_of_sort (fun v hv _ hinitial => ?_) (fun v _ hdigit _ => ?_) (fun s hs _ => ?_) rfl
  · rw [← ht, word_text]
    refine (munches_takeWhile isWordPart).le ?_ hinitial
    obtain ⟨hstart, hparts⟩ := isWord_cons_iff.mp hv
    exact List.forall_mem_cons.mpr ⟨isWordPart_of_isWordStart hstart, hparts⟩
  · rw [isWordStart_of_isDigit hdigit] at hc
    cases hc
  · obtain ⟨b, bs, hchars, -, -, hstart⟩ := symbol_head s
    obtain rfl : b = c := by simpa [hchars] using hs
    rw [hstart] at hc
    cases hc

theorem heads_symbol {s : Symbol} {r : List Char} (hs : Symbol.longest? (s.chars ++ r) = some s) :
    Heads (.symbol s) s.chars r := by
  obtain ⟨b, bs, hchars, -, hdigit, hstart⟩ := symbol_head s
  refine .longest (.symbol s) (longest_of_sort (c := b) (fun v _ hb _ => ?_) (fun v _ hb _ => ?_)
    (fun s' _ hinitial => ?_) (by rw [hchars]; rfl))
  · rw [hstart] at hb
    cases hb
  · rw [hdigit] at hb
    cases hb
  · -- longer symbols are listed first
    have hordered : Symbol.all.Pairwise fun a b => b.chars.length ≤ a.chars.length := by
      decide
    obtain ⟨-, before, behind, hall, hnone⟩ := List.find?_eq_some_iff_append.mp hs
    have hmem := Symbol.mem_all s'
    rw [hall] at hmem hordered
    rcases List.mem_append.mp hmem with hmem | hmem
    · have hnot := hnone s' hmem
      rw [List.isPrefixOf_iff_prefix.mpr hinitial] at hnot
      cases hnot
    · rcases List.mem_cons.mp hmem with rfl | hmem
      · exact Nat.le_refl _
      · exact (List.pairwise_cons.mp (List.pairwise_append.mp hordered).2.1).1 s' hmem

theorem heads_number (hc : Numeric.isDigit c = true) {t r : List Char}
    (h : number (c :: (t ++ r)) = .ok lx) (ht : lx.text = c :: t) :
    Heads lx.kind (c :: t) r := by
  have hothers : ∀ n, (∀ v, IsDecimal (c :: v) ∨ (∃ form, IsRadix form (c :: v)) →
      c :: v <+: c :: (t ++ r) → (c :: v).length ≤ n) →
        ∀ v, v <+: c :: (t ++ r) → IsSpelling v → v.length ≤ n := by
    intro n hn
    refine longest_of_sort (fun v _ hstart _ => ?_) (fun v hv _ => hn v hv) (fun s hs _ => ?_) rfl
    · rw [isWordStart_of_isDigit hc] at hstart
      cases hstart
    · obtain ⟨b, bs, hchars, -, hdigit, -⟩ := symbol_head s
      obtain rfl : b = c := by simpa [hchars] using hs
      rw [hdigit] at hc
      cases hc
  by_cases hmark : ∃ mark rest, c :: (t ++ r) = '0' :: mark :: rest ∧
      (Numeric.radixOfMark? mark).isSome
  · obtain ⟨mark, rest, hcs, hradix⟩ := hmark
    obtain ⟨radix, hradix⟩ := Option.isSome_iff_exists.mp hradix
    rw [hcs, number_radix hradix] at h
    split at h
    next => cases h
    next hdigits =>
      cases h
      refine .longest (ht ▸ .radix (isRadix_iff.mpr ⟨mark, radix, _, hradix,
        fun d hd => List.mem_takeWhile_imp hd, ?_, rfl, rfl⟩)) (hothers _ fun v hv hinitial => ?_)
      · rintro rfl hempty
        exact hdigits ⟨by rw [hempty]; rfl, rfl⟩
      · rw [hcs] at hinitial
        rw [← ht]
        rcases hv with hv | ⟨form, hv⟩
        · have hle := length_le_takeDecimal hv hinitial
          rw [takeDecimal_of_mark hradix] at hle
          simp only [List.length_cons, List.length_nil] at hle ⊢
          omega
        · obtain ⟨mark', radix', ds, hradix', hds, -, -, hv⟩ := isRadix_iff.mp hv
          rw [hv] at hinitial ⊢
          obtain ⟨rfl, htail⟩ := List.cons_prefix_cons.mp (List.cons_prefix_cons.mp hinitial).2
          obtain rfl : radix' = radix := Option.some.inj (hradix'.symm.trans hradix)
          have hle := (munches_takeWhile _).le hds htail
          simp only [List.length_cons]
          omega
  · simp only [not_exists, not_and, Option.not_isSome_iff_eq_none] at hmark
    rw [number_decimal hmark] at h
    cases h
    refine .longest (ht ▸ .decimal (isDecimal_takeDecimal hc _)) (hothers _ fun v hv hinitial => ?_)
    rw [← ht]
    rcases hv with hv | ⟨form, hv⟩
    · exact length_le_takeDecimal hv hinitial
    · obtain ⟨mark, radix, ds, hradix, -, -, -, hv⟩ := isRadix_iff.mp hv
      rw [hv] at hinitial
      obtain ⟨rest, hrest⟩ := hinitial
      rw [hmark mark (ds ++ rest) hrest.symm] at hradix
      cases hradix

theorem endsString_takeString (quote : Char) (cs : List Char) :
    ∃ rest, cs = (takeString quote cs).1 ++ rest ∧
      EndsString quote (takeString quote cs).1 (takeString quote cs).2 rest := by
  induction cs using escape_induction with
  | nil => exact ⟨[], rfl, .atEnd .nil⟩
  | lone => exact ⟨[], rfl, .atBackslash .nil⟩
  | escape c cs ih =>
    obtain ⟨rest, hcs, hends⟩ := ih
    simp only [takeString]
    refine ⟨rest, by rw [List.cons_append, List.cons_append, ← hcs], ?_⟩
    generalize (takeString quote cs).1 = text at hends
    generalize (takeString quote cs).2 = value at hends
    cases hends with
    | closed h => exact .closed (.escape h)
    | atEnd h => exact .atEnd (.escape h)
    | atBackslash h => exact .atBackslash (.escape h)
  | plain c cs hc ih =>
    obtain ⟨rest, hcs, hends⟩ := ih
    rw [takeString_cons hc]
    split
    next hquote =>
      subst hquote
      exact ⟨cs, rfl, .closed .nil⟩
    next hquote =>
      refine ⟨rest, by rw [List.cons_append, ← hcs], ?_⟩
      dsimp only
      generalize (takeString quote cs).1 = text at hends
      generalize (takeString quote cs).2 = value at hends
      cases hends with
      | closed h => exact .closed (.plain hc hquote h)
      | atEnd h => exact .atEnd (.plain hc hquote h)
      | atBackslash h => exact .atBackslash (.plain hc hquote h)

theorem heads_of_next (h : next c cs = .ok lx) :
    ∃ rest, c :: cs = lx.text ++ rest ∧ Heads lx.kind lx.text rest := by
  obtain ⟨t, r, ht, rfl⟩ := next_isPrefix h
  rw [ht]
  unfold next at h
  split at h
  next hquote =>
    obtain ⟨rest, hrest, hends⟩ := endsString_takeString c (t ++ r)
    cases h
    have htext := (List.cons.inj ht).2
    rw [htext] at hrest hends
    exact ⟨rest, congrArg (c :: ·) hrest, .string hquote hends⟩
  next =>
    refine ⟨r, rfl, ?_⟩
    split at h
    next hdigit => exact heads_number hdigit h ht
    next =>
      split at h
      next hstart =>
        cases h
        exact heads_word hstart ht
      next =>
        split at h
        next s hs =>
          cases h
          rw [← List.cons_append, ← ht] at hs
          rw [← ht]
          exact heads_symbol hs
        next => cases h

end First

section Refusals

variable {c : Char} {cs : List Char}

theorem isSpelling_of_isWord {w : List Char} (h : IsWord w) : IsSpelling w := by
  by_cases hmem : String.ofList w ∈ Keyword.reserved
  · obtain ⟨k, hk⟩ := Keyword.mem_reserved_iff.mp hmem
    exact ⟨.keyword k, .keyword h hmem (congrArg some (Keyword.text_of_ofText? hk))⟩
  · exact ⟨_, .identifier h hmem⟩

theorem isDecimal_singleton (hc : Numeric.isDigit c = true) : IsDecimal [c] :=
  ⟨[c], [], [], ⟨nofun, by simpa using hc⟩, .inl rfl, .inl rfl, rfl⟩

theorem refuses_of_number {refusal : Refusal} (h : number cs = .error refusal) : Refuses cs := by
  unfold number at h
  split at h
  next mark rest =>
    split at h
    next radix hradix =>
      dsimp only at h
      split at h
      next hempty =>
        obtain ⟨hdigits, rfl⟩ := hempty
        have hmark : mark = 'x' ∨ mark = 'X' := by
          obtain ⟨-, hmark⟩ | ⟨⟨⟩, -⟩ | ⟨⟨⟩, -⟩ := radixOfMark?_eq_some hradix
          exact hmark
        refine .hexadecimal hmark fun d hd => ?_
        obtain ⟨rest, rfl⟩ := List.head?_eq_some_iff.mp hd
        by_contra hdigit
        rw [Bool.not_eq_false] at hdigit
        simp [hdigit] at hdigits
      next => cases h
    next => cases h
  next => cases h

theorem refusal_of_number {refusal : Refusal} (h : number cs = .error refusal) :
    ∃ mark rest, cs = '0' :: mark :: rest ∧ refusal = ⟨.emptyHexadecimal, ['0', mark]⟩ := by
  unfold number at h
  split at h
  next mark rest =>
    split at h
    next =>
      dsimp only at h
      split at h
      next =>
        cases h
        exact ⟨mark, rest, rfl, rfl⟩
      next => cases h
    next => cases h
  next => cases h

theorem refusal_cases {refusal : Refusal} (h : next c cs = .error refusal) :
    refusal = ⟨.unexpectedCharacter c, [c]⟩ ∨
      ∃ mark rest, c :: cs = '0' :: mark :: rest ∧ refusal = ⟨.emptyHexadecimal, ['0', mark]⟩ := by
  unfold next at h
  split at h
  next => cases h
  next =>
    split at h
    next => exact .inr (refusal_of_number h)
    next =>
      split at h
      next => cases h
      next =>
        split at h
        next => cases h
        next =>
          cases h
          exact .inl rfl

theorem refuses_iff : (∃ refusal, next c cs = .error refusal) ↔ Refuses (c :: cs) := by
  constructor
  · rintro ⟨refusal, h⟩
    unfold next at h
    split at h
    next => cases h
    next hquote =>
      split at h
      next => exact refuses_of_number h
      next hdigit =>
        split at h
        next => cases h
        next hstart =>
          split at h
          next => cases h
          next hnone =>
            refine .character (by simpa using hquote) fun w hw => ?_
            rcases isSpelling_cases hw with ⟨-, hc⟩ | ⟨-, hc⟩ | ⟨s, hs⟩
            · exact hstart hc
            · exact hdigit hc
            · obtain ⟨s', hs'⟩ := exists_symbol_singleton hs
              have hnot := List.find?_eq_none.mp hnone s' (Symbol.mem_all s')
              simp [hs'] at hnot
  · intro h
    generalize hcs : c :: cs = text at h
    cases h with
    | character hquote hnone =>
      cases hcs
      have hdigit : ¬Numeric.isDigit c = true := fun hc =>
        hnone [] ⟨_, .decimal (isDecimal_singleton hc)⟩
      have hstart : ¬isWordStart c = true := fun hc =>
        hnone [] (isSpelling_of_isWord (isWord_cons_iff.mpr ⟨hc, nofun⟩))
      cases hs : Symbol.longest? (c :: cs) with
      | none => exact ⟨⟨.unexpectedCharacter c, [c]⟩, by simp [next, hquote, hdigit, hstart, hs]⟩
      | some s =>
        obtain ⟨b, bs, hchars⟩ := List.exists_cons_of_ne_nil (chars_ne_nil s)
        have hinitial := List.isPrefixOf_iff_prefix.mp (Symbol.isPrefixOf_of_longest? hs)
        rw [hchars] at hinitial
        obtain rfl : b = c := (List.cons_prefix_cons.mp hinitial).1
        have hspells : Spells (.symbol s) (b :: bs) := hchars ▸ Spells.symbol s
        exact absurd ⟨_, hspells⟩ (hnone bs)
    | @hexadecimal mark rest hmark hdigit =>
      cases hcs
      have hradix : Numeric.radixOfMark? mark = some 16 := by
        rcases hmark with rfl | rfl <;> rfl
      have hempty : rest.takeWhile (Numeric.isRadixDigit 16) = [] := by
        cases rest with
        | nil => rfl
        | cons d rest => simp [hdigit d rfl]
      have hnext : next '0' (mark :: rest) = number ('0' :: mark :: rest) := rfl
      rw [hnext, number_radix hradix, hempty]
      exact ⟨_, rfl⟩

end Refusals

end Lexeme

end ScriptEngine
