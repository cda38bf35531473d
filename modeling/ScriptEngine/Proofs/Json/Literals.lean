import Mathlib.Data.List.Basic
import Mathlib.Tactic.IntervalCases
import ScriptEngine.Json.Reader

/-!
# Strings and numbers of JSON

What a string literal may hold between its quotes and which text it stands for, and how a number is
written. Unquoting gives the text that a literal stands for, and quoting writes a literal for every
text. Both sorts of literals are read through to their end.
-/

namespace ScriptEngine.Json

section Strings

/-- The characters of a string literal, escapes of surrogates included that are no pair. -/
inductive IsRaw : List Char → Prop where
  | nil : IsRaw []
  | plain {c : Char} {cs : List Char}
      (hquote : c ≠ '"') (hescape : c ≠ '\\') (hcontrol : 32 ≤ c.toNat)
      (hcs : IsRaw cs) : IsRaw (c :: cs)
  | short {c x : Char} {cs : List Char} (hc : shortEscape? c = some x) (hcs : IsRaw cs) :
      IsRaw ('\\' :: c :: cs)
  | unit {a b c d : Char} {u : ℕ} {cs : List Char} (hu : hexUnit? a b c d = some u)
      (hcs : IsRaw cs) : IsRaw ('\\' :: 'u' :: a :: b :: c :: d :: cs)

variable {raw xs : List Char}

theorem ne_u_of_shortEscape? {c x : Char} (h : shortEscape? c = some x) : c ≠ 'u' := by
  rintro rfl
  have hnone : shortEscape? 'u' = none := by decide
  rw [hnone] at h
  cases h

theorem IsRaw.of_unit {a b c d : Char} {cs : List Char}
    (h : IsRaw ('\\' :: 'u' :: a :: b :: c :: d :: cs)) :
    (∃ u, hexUnit? a b c d = some u) ∧ IsRaw cs := by
  cases h with
  | plain _ hescape => exact absurd rfl hescape
  | short hc => exact absurd rfl (ne_u_of_shortEscape? hc)
  | unit hu hcs => exact ⟨⟨_, hu⟩, hcs⟩

section ReadingStrings

variable {c : Char} {cs : List Char}

theorem readRaw_plain (hquote : c ≠ '"') (hescape : c ≠ '\\') (hcontrol : 32 ≤ c.toNat) :
    readRaw (c :: cs) = (readRaw cs).map fun (raw, rest) => (c :: raw, rest) := by
  rw [readRaw.eq_5, if_neg]
  · cases readRaw cs <;> rfl
  · rintro (h | h)
    · exact hescape h
    · exact absurd h (not_lt.2 hcontrol)
  · exact hquote
  all_goals
    intros
    exact hescape ‹_›

theorem readRaw_short {x : Char} (hc : shortEscape? c = some x) :
    readRaw ('\\' :: c :: cs) =
      (readRaw cs).map fun (raw, rest) => ('\\' :: c :: raw, rest) := by
  rw [readRaw.eq_4, hc]
  · cases readRaw cs <;> rfl
  · intros
    exact ne_u_of_shortEscape? hc ‹_›

theorem readRaw_unit {a b d : Char} {u : ℕ} (hu : hexUnit? a b c d = some u) :
    readRaw ('\\' :: 'u' :: a :: b :: c :: d :: cs) =
      (readRaw cs).map fun (raw, rest) => ('\\' :: 'u' :: a :: b :: c :: d :: raw, rest) := by
  rw [readRaw.eq_3, hu]
  cases readRaw cs <;> rfl

theorem readRaw_of_isRaw (h : IsRaw raw) (rest : List Char) :
    readRaw (raw ++ '"' :: rest) = some (raw, rest) := by
  induction h with
  | nil => rfl
  | plain hquote hescape hcontrol _ ih =>
    rw [List.cons_append, readRaw_plain hquote hescape hcontrol, ih, Option.map_some]
  | short hc _ ih => rw [List.cons_append, List.cons_append, readRaw_short hc, ih, Option.map_some]
  | unit hu _ ih =>
    simp only [List.cons_append]
    rw [readRaw_unit hu, ih, Option.map_some]

end ReadingStrings

inductive Denotes : List Char → List Char → Prop where
  | nil : Denotes [] []
  | plain {c : Char} {cs xs : List Char} (hquote : c ≠ '"') (hescape : c ≠ '\\')
      (hcontrol : 32 ≤ c.toNat) (hcs : Denotes cs xs) : Denotes (c :: cs) (c :: xs)
  | short {c x : Char} {cs xs : List Char} (hc : shortEscape? c = some x) (hcs : Denotes cs xs) :
      Denotes ('\\' :: c :: cs) (x :: xs)
  | unit {a b c d : Char} {u : ℕ} {cs xs : List Char} (hu : hexUnit? a b c d = some u)
      (hlead : isLead u = false) (htrail : isTrail u = false) (hcs : Denotes cs xs) :
      Denotes ('\\' :: 'u' :: a :: b :: c :: d :: cs) (Char.ofNat u :: xs)
  | pair {a b c d e f g h : Char} {u v : ℕ} {cs xs : List Char} (hu : hexUnit? a b c d = some u)
      (hv : hexUnit? e f g h = some v) (hlead : isLead u = true) (htrail : isTrail v = true)
      (hcs : Denotes cs xs) :
      Denotes ('\\' :: 'u' :: a :: b :: c :: d :: '\\' :: 'u' :: e :: f :: g :: h :: cs)
        (Char.ofNat (0x10000 + (u - 0xD800) * 0x400 + (v - 0xDC00)) :: xs)

theorem Denotes.isRaw (h : Denotes raw xs) : IsRaw raw := by
  induction h with
  | nil => exact .nil
  | plain hquote hescape hcontrol _ ih => exact .plain hquote hescape hcontrol ih
  | short hc _ ih => exact .short hc ih
  | unit hu _ _ _ ih => exact .unit hu ih
  | pair hu hv _ _ _ ih => exact .unit hu (.unit hv ih)

section Unquoting

variable {c : Char} {cs : List Char}

theorem unescape?_plain (hescape : c ≠ '\\') :
    unescape? (c :: cs) = (unescape? cs).map (c :: ·) := by
  rw [unescape?.eq_5, if_neg hescape]
  all_goals
    intros
    exact hescape ‹_›

theorem unescape?_short (hc : c ≠ 'u') :
    unescape? ('\\' :: c :: cs) = (shortEscape? c).bind fun x => (unescape? cs).map (x :: ·) := by
  rw [unescape?.eq_4]
  · cases shortEscape? c <;> rfl
  all_goals
    intros
    exact hc ‹_›

/-- An escape that is no surrogate stands for itself, also where another escape follows. -/
theorem unescape?_unit {a b d : Char} {u : ℕ} (hu : hexUnit? a b c d = some u)
    (hlead : isLead u = false) (htrail : isTrail u = false) (hcs : IsRaw cs) :
    unescape? ('\\' :: 'u' :: a :: b :: c :: d :: cs) = (unescape? cs).map (Char.ofNat u :: ·) := by
  by_cases hnext : ∃ e f g h cs', cs = '\\' :: 'u' :: e :: f :: g :: h :: cs'
  · obtain ⟨e, f, g, h, cs', rfl⟩ := hnext
    obtain ⟨⟨v, hv⟩, -⟩ := hcs.of_unit
    rw [unescape?.eq_2, hu, hv]
    dsimp only
    rw [hlead, htrail]
    rfl
  · rw [unescape?.eq_3, hu]
    · dsimp only
      rw [hlead, htrail]
      rfl
    · intro e f g h cs' hcs'
      exact hnext ⟨e, f, g, h, cs', hcs'⟩

theorem unescape?_pair {a b d e f g h : Char} {u v : ℕ} (hu : hexUnit? a b c d = some u)
    (hv : hexUnit? e f g h = some v) (hlead : isLead u = true) (htrail : isTrail v = true) :
    unescape? ('\\' :: 'u' :: a :: b :: c :: d :: '\\' :: 'u' :: e :: f :: g :: h :: cs) =
      (unescape? cs).map (Char.ofNat (0x10000 + (u - 0xD800) * 0x400 + (v - 0xDC00)) :: ·) := by
  rw [unescape?.eq_2, hu, hv]
  dsimp only
  rw [hlead, htrail]
  rfl

end Unquoting

theorem unescape?_of_denotes (h : Denotes raw xs) : unescape? raw = some xs := by
  induction h with
  | nil => rfl
  | plain _ hescape _ _ ih => rw [unescape?_plain hescape, ih, Option.map_some]
  | short hc _ ih =>
    rw [unescape?_short (ne_u_of_shortEscape? hc), hc, Option.bind_some, ih, Option.map_some]
  | unit hu hlead htrail hcs ih =>
    rw [unescape?_unit hu hlead htrail hcs.isRaw, ih, Option.map_some]
  | pair hu hv hlead htrail _ ih => rw [unescape?_pair hu hv hlead htrail, ih, Option.map_some]

section Quoting

theorem Denotes.append {raw' xs' : List Char} (h : Denotes raw xs) (h' : Denotes raw' xs') :
    Denotes (raw ++ raw') (xs ++ xs') := by
  induction h with
  | nil => exact h'
  | plain hquote hescape hcontrol _ ih => exact .plain hquote hescape hcontrol ih
  | short hc _ ih => exact .short hc ih
  | unit hu hlead htrail _ ih => exact .unit hu hlead htrail ih
  | pair hu hv hlead htrail _ ih => exact .pair hu hv hlead htrail ih

theorem hexUnit?_controlEscape {n : ℕ} (hn : n < 32) :
    hexUnit? '0' '0' (Nat.digitChar (n / 16)) (Nat.digitChar (n % 16)) = some n := by
  interval_cases n <;> rfl

theorem denotes_escapeChar (c : Char) : Denotes (escapeChar c) [c] := by
  have hshort {d x : Char} (hd : shortEscape? d = some x) : Denotes ['\\', d] [x] :=
    .short hd .nil
  have hself (n : ℕ) (h : c.toNat = n) : Char.ofNat n = c := by
    rw [← h, Char.ofNat_toNat]
  unfold escapeChar
  split
  next h =>
    rw [h]
    exact hshort (by decide)
  split
  next h =>
    rw [h]
    exact hshort (by decide)
  split
  next h =>
    rw [h]
    exact hshort (by decide)
  split
  next h =>
    rw [h]
    exact hshort (by decide)
  split
  next h =>
    rw [h]
    exact hshort (by decide)
  split
  next h =>
    rw [← hself 8 h]
    exact hshort (by decide)
  split
  next h =>
    rw [← hself 12 h]
    exact hshort (by decide)
  split
  next hcontrol =>
    have hunit := Denotes.unit (hexUnit?_controlEscape hcontrol) (by unfold isLead; simp; omega)
      (by unfold isTrail; simp; omega) .nil
    rwa [hself _ rfl] at hunit
  next hquote hescape _ _ _ _ _ hcontrol =>
    exact .plain hquote hescape (not_lt.1 hcontrol) .nil

theorem denotes_escape (xs : List Char) : Denotes (escape xs) xs := by
  induction xs with
  | nil => exact .nil
  | cons x xs ih => exact (denotes_escapeChar x).append ih

end Quoting

end Strings

section Numbers

def AreDigits (ds : List Char) : Prop :=
  ds ≠ [] ∧ ∀ c ∈ ds, isDigit c = true

inductive IsWhole : List Char → Prop where
  | zero : IsWhole ['0']
  | digits {ds : List Char} (hds : AreDigits ds) (hfirst : ds.head? ≠ some '0') : IsWhole ds

inductive IsFraction : List Char → Prop where
  | none : IsFraction []
  | digits {ds : List Char} (hds : AreDigits ds) : IsFraction ('.' :: ds)

inductive IsExponent : List Char → Prop where
  | none : IsExponent []
  | digits {e : Char} {sign ds : List Char} (he : e = 'e' ∨ e = 'E')
      (hsign : sign = [] ∨ sign = ['+'] ∨ sign = ['-']) (hds : AreDigits ds) :
      IsExponent (e :: (sign ++ ds))

inductive IsNumeral : List Char → Prop where
  | intro {minus whole fraction exponent : List Char} (hminus : minus = [] ∨ minus = ['-'])
      (hwhole : IsWhole whole) (hfraction : IsFraction fraction) (hexponent : IsExponent exponent) :
      IsNumeral (minus ++ whole ++ fraction ++ exponent)

def EndsNumber (rest : List Char) : Prop :=
  ∀ c ∈ rest.head?, isDigit c = false ∧ c ≠ '.' ∧ c ≠ 'e' ∧ c ≠ 'E'

variable {ds rest : List Char}

def EndsDigits (rest : List Char) : Prop :=
  ∀ c ∈ rest.head?, isDigit c = false

theorem EndsNumber.endsDigits (h : EndsNumber rest) : EndsDigits rest :=
  fun c hc => (h c hc).1

theorem endsDigits_cons {c : Char} (h : isDigit c = false) : EndsDigits (c :: rest) := by
  intro d hd
  cases hd
  exact h

theorem takeWhile_digits (hds : ∀ c ∈ ds, isDigit c = true) (hrest : EndsDigits rest) :
    (ds ++ rest).takeWhile isDigit = ds := by
  rw [List.takeWhile_append_of_pos hds]
  cases rest with
  | nil => exact List.append_nil ds
  | cons c cs => rw [List.takeWhile_cons_of_neg (by rw [hrest c rfl]; exact Bool.false_ne_true),
      List.append_nil]

theorem AreDigits.isEmpty (h : AreDigits ds) : ds.isEmpty = false :=
  List.isEmpty_eq_false_iff.2 h.1

theorem AreDigits.exists_cons (h : AreDigits ds) : ∃ c cs, ds = c :: cs ∧ isDigit c = true := by
  obtain ⟨hne, hall⟩ := h
  cases ds with
  | nil => exact absurd rfl hne
  | cons c cs => exact ⟨c, cs, rfl, hall c List.mem_cons_self⟩

theorem readWhole_digits (hds : AreDigits ds) (hfirst : ds.head? ≠ some '0')
    (hrest : EndsDigits rest) : readWhole (ds ++ rest) = some (ds, rest) := by
  obtain ⟨c, cs, rfl, hc⟩ := hds.exists_cons
  have hzero : c ≠ '0' := by
    rintro rfl
    exact hfirst rfl
  have htake := takeWhile_digits hds.2 hrest
  rw [List.cons_append] at htake ⊢
  rw [readWhole.eq_2]
  · have hdrop : (c :: cs ++ rest).drop (c :: cs).length = rest := List.drop_left
    rw [htake, hds.isEmpty, if_neg Bool.false_ne_true]
    exact congrArg (fun r => some (c :: cs, r)) hdrop
  · rintro cs' h
    exact hzero (List.cons.inj h).1

theorem readWhole_of_isWhole {whole : List Char} (h : IsWhole whole) (hrest : EndsDigits rest) :
    readWhole (whole ++ rest) = some (whole, rest) := by
  cases h with
  | zero => rfl
  | digits hds hfirst => exact readWhole_digits hds hfirst hrest

theorem readFraction_of_isFraction {fraction : List Char} (h : IsFraction fraction)
    (hdigits : EndsDigits rest) (hpoint : rest.head? ≠ some '.') :
    readFraction (fraction ++ rest) = some (fraction, rest) := by
  cases h with
  | none =>
    rw [List.nil_append, readFraction.eq_2]
    rintro cs rfl
    exact hpoint rfl
  | @digits ds hds =>
    rw [List.cons_append, readFraction.eq_1, takeWhile_digits hds.2 hdigits, hds.isEmpty,
      if_neg Bool.false_ne_true, List.drop_left]

theorem readSign_append {sign : List Char} (h : sign = [] ∨ sign = ['+'] ∨ sign = ['-'])
    (hds : AreDigits ds) : readSign (sign ++ (ds ++ rest)) = (sign, ds ++ rest) := by
  obtain ⟨c, cs, rfl, hc⟩ := hds.exists_cons
  rcases h with rfl | rfl | rfl
  · rw [List.nil_append, List.cons_append, readSign.eq_3]
    · rintro cs' h
      rw [(List.cons.inj h).1] at hc
      cases hc
    · rintro cs' h
      rw [(List.cons.inj h).1] at hc
      cases hc
  · rfl
  · rfl

theorem readExponent_of_isExponent {exponent : List Char} (h : IsExponent exponent)
    (hrest : EndsNumber rest) : readExponent (exponent ++ rest) = some (exponent, rest) := by
  cases h with
  | none =>
    cases rest with
    | nil => rfl
    | cons c cs =>
      obtain ⟨-, -, he, hE⟩ := hrest c rfl
      rw [List.nil_append, readExponent.eq_1, if_neg]
      rintro (h | h)
      · exact he h
      · exact hE h
  | @digits e sign ds he hsign hds =>
    rw [List.cons_append, List.append_assoc, readExponent.eq_1, if_pos he,
      readSign_append hsign hds]
    dsimp only
    rw [takeWhile_digits hds.2 hrest.endsDigits, hds.isEmpty, if_neg Bool.false_ne_true,
      List.drop_left, List.cons_append]

theorem readMinus_append {minus : List Char} (h : minus = [] ∨ minus = ['-'])
    (hrest : rest.head? ≠ some '-') : readMinus (minus ++ rest) = (minus, rest) := by
  rcases h with rfl | rfl
  · rw [List.nil_append, readMinus.eq_2]
    rintro cs rfl
    exact hrest rfl
  · rfl

theorem IsWhole.exists_cons {whole : List Char} (h : IsWhole whole) :
    ∃ c cs, whole = c :: cs ∧ isDigit c = true := by
  cases h with
  | zero => exact ⟨'0', [], rfl, by decide⟩
  | digits hds => exact hds.exists_cons

theorem IsExponent.ends {exponent : List Char} (h : IsExponent exponent) (hrest : EndsNumber rest) :
    EndsDigits (exponent ++ rest) ∧ (exponent ++ rest).head? ≠ some '.' := by
  cases h with
  | none =>
    refine ⟨hrest.endsDigits, ?_⟩
    intro hpoint
    exact (hrest '.' hpoint).2.1 rfl
  | digits he =>
    rcases he with rfl | rfl
    · exact ⟨endsDigits_cons (by decide), by simp⟩
    · exact ⟨endsDigits_cons (by decide), by simp⟩

theorem IsFraction.ends {fraction : List Char} (h : IsFraction fraction) (hrest : EndsDigits rest) :
    EndsDigits (fraction ++ rest) := by
  cases h with
  | none => exact hrest
  | digits => exact endsDigits_cons (by decide)

theorem readNumber_of_isNumeral {literal : List Char} (h : IsNumeral literal)
    (hrest : EndsNumber rest) : readNumber (literal ++ rest) = some (literal, rest) := by
  obtain @⟨minus, whole, fraction, exponent, hminus, hwhole, hfraction, hexponent⟩ := h
  obtain ⟨hdigits, hpoint⟩ := hexponent.ends hrest
  have hfirst : (whole ++ (fraction ++ (exponent ++ rest))).head? ≠ some '-' := by
    obtain ⟨c, cs, rfl, hc⟩ := hwhole.exists_cons
    intro h
    rw [Option.some.inj h] at hc
    cases hc
  unfold readNumber
  simp only [List.append_assoc, readMinus_append hminus hfirst,
    readWhole_of_isWhole hwhole (hfraction.ends hdigits),
    readFraction_of_isFraction hfraction hdigits hpoint, readExponent_of_isExponent hexponent hrest,
    Option.bind_eq_bind, Option.bind_some]
  rfl

end Numbers

end ScriptEngine.Json
