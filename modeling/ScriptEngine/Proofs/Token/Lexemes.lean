import Mathlib.Data.List.TakeWhile
import ScriptEngine.Proofs.Token.Characters

/-!
# Lexemes of cut texts

A lexeme is the start of its text, and it stays the first lexeme when the text is cut off anywhere
behind it: what follows can make a lexeme longer only through characters that the uncut text has
too. A cut text goes on with a blank or a closing parenthesis, or ends. Strings need their closing
quote for that.
-/

namespace ScriptEngine

open Text

namespace Lexeme

/-- A text that ends at once or begins with a character that ends every lexeme. -/
inductive Cut : List Char → Prop
  | done : Cut []
  | blank (cs : List Char) : Cut (' ' :: cs)
  | close (cs : List Char) : Cut (')' :: cs)

/-- A function takes the start of a text, and takes it too when the text is cut behind it. -/
structure Takes (F : List Char → List Char) : Prop where
  isPrefix : ∀ cs, F cs <+: cs
  cut : ∀ u q z d, Cut d → F (u ++ (q ++ z)) = u → F (u ++ (q ++ d)) = u

theorem takeWhile_of_cut {p : Char → Bool} (hblank : p ' ' = false) (hclose : p ')' = false)
    {d : List Char} (hd : Cut d) : d.takeWhile p = [] := by
  cases hd with
  | done => rfl
  | blank => simp [hblank]
  | close => simp [hclose]

theorem takes_takeWhile {p : Char → Bool} (hblank : p ' ' = false) (hclose : p ')' = false) :
    Takes (List.takeWhile p) where
  isPrefix _ := List.takeWhile_prefix p
  cut := by
    intro u q z d hd h
    have hall : ∀ c ∈ u, p c = true := fun c hc => by
      rw [← h] at hc
      exact List.mem_takeWhile_imp hc
    rw [List.takeWhile_append_of_pos hall, List.append_right_eq_self] at h ⊢
    cases q with
    | nil => exact takeWhile_of_cut hblank hclose hd
    | cons c q =>
      by_cases hc : p c
      · simp [hc] at h
      · simp [hc]

theorem takes_digits : Takes (List.takeWhile Numeric.isDigit) :=
  takes_takeWhile rfl rfl

theorem Takes.then {F G : List Char → List Char} (hF : Takes F) (hG : Takes G) :
    Takes fun cs => F cs ++ G (cs.drop (F cs).length) where
  isPrefix := by
    intro cs
    have hf := List.prefix_iff_eq_append.mp (hF.isPrefix cs)
    obtain ⟨r, hr⟩ := hG.isPrefix (cs.drop (F cs).length)
    refine ⟨r, ?_⟩
    rw [List.append_assoc, hr, hf]
  cut := by
    intro u q z d hd h
    generalize hf : F (u ++ (q ++ z)) = f at h
    generalize hg : G ((u ++ (q ++ z)).drop f.length) = g at h
    subst h
    rw [List.append_assoc] at hf hg
    rw [List.drop_left] at hg
    have hf' : F (f ++ (g ++ (q ++ d))) = f := by
      rw [← List.append_assoc g q d]
      exact hF.cut f (g ++ q) z d hd (by rw [List.append_assoc g q z]; exact hf)
    have hg' : G (g ++ (q ++ d)) = g := hG.cut g q z d hd hg
    rw [List.append_assoc f g, hf', List.drop_left, hg']

theorem takeFraction_point (cs : List Char) : takeFraction ('.' :: cs) =
    if (cs.takeWhile Numeric.isDigit).isEmpty then []
      else '.' :: cs.takeWhile Numeric.isDigit := rfl

theorem takeFraction_of_ne {c : Char} (hc : c ≠ '.') (cs : List Char) :
    takeFraction (c :: cs) = [] := by
  unfold takeFraction
  split
  next h => exact absurd (List.cons.inj h).1 hc
  next => rfl

theorem takes_fraction : Takes takeFraction where
  isPrefix := by
    intro cs
    unfold takeFraction
    split
    next cs =>
      dsimp only
      split
      · exact List.nil_prefix
      · exact List.cons_prefix_cons.mpr ⟨rfl, List.takeWhile_prefix _⟩
    next => exact List.nil_prefix
  cut := by
    intro u q z d hd h
    cases u with
    | nil =>
      cases q with
      | nil => cases hd <;> rfl
      | cons c q =>
        by_cases hc : c = '.'
        · subst hc
          simp only [List.nil_append, List.cons_append, takeFraction_point] at h ⊢
          split at h
          next hempty =>
            have hdigits := takes_digits.cut [] q z d hd (List.isEmpty_iff.mp hempty)
            rw [List.nil_append] at hdigits
            rw [hdigits]
            rfl
          next => cases h
        · exact takeFraction_of_ne hc _
    | cons c u =>
      by_cases hc : c = '.'
      · subst hc
        simp only [List.cons_append, takeFraction_point] at h ⊢
        split at h
        next => cases h
        next hne =>
          have hu := (List.cons.inj h).2
          rw [hu] at hne
          rw [takes_digits.cut u q z d hd hu, if_neg hne]
      · rw [List.cons_append, takeFraction_of_ne hc] at h
        cases h

theorem takeExponent_sign {c : Char} (hc : c = '+' ∨ c = '-') (e : Char) (cs : List Char) :
    Numeric.takeExponent (e :: c :: cs) = Numeric.takeExponent.mark e [c] cs := by
  rcases hc with rfl | rfl <;> rfl

theorem takeExponent_of_ne {c : Char} (hc : ¬(c = '+' ∨ c = '-')) (e : Char) (cs : List Char) :
    Numeric.takeExponent (e :: c :: cs) = Numeric.takeExponent.mark e [] (c :: cs) := by
  unfold Numeric.takeExponent
  split
  next h => exact absurd (.inl (List.cons.inj (List.cons.inj h).2).1) hc
  next h => exact absurd (.inr (List.cons.inj (List.cons.inj h).2).1) hc
  next h =>
    cases h
    rfl
  next h => cases h

section Mark

open Numeric.takeExponent (mark)

variable {e : Char} {s u q z d : List Char}

theorem mark_cut_nil (hd : Cut d) (h : mark e s (q ++ z) = []) : mark e s (q ++ d) = [] := by
  unfold mark at h ⊢
  dsimp only at h ⊢
  refine if_neg fun hcond => ?_
  by_cases hempty : (q ++ z).takeWhile Numeric.isDigit = []
  · have hdigits := takes_digits.cut [] q z d hd hempty
    rw [List.nil_append] at hdigits
    simp [hdigits] at hcond
  · rw [if_pos ⟨hcond.1, by simpa using hempty⟩] at h
    cases h

theorem mark_cut_cons (hd : Cut d) (h : mark e s (u ++ (q ++ z)) = e :: s ++ u) :
    mark e s (u ++ (q ++ d)) = e :: s ++ u := by
  unfold mark at h ⊢
  dsimp only at h ⊢
  split at h
  next hcond =>
    have hu := List.append_cancel_left h
    rw [hu] at hcond
    rw [takes_digits.cut u q z d hd hu, if_pos hcond]
  next => cases h

theorem mark_of_cut (hd : Cut d) : mark e s d = [] := by
  have hdigits : d.takeWhile Numeric.isDigit = [] := takeWhile_of_cut rfl rfl hd
  simp [mark, hdigits]

theorem mark_of_ne {cs : List Char} (he : e ≠ 'e') (he' : e ≠ 'E') : mark e s cs = [] := by
  simp [mark, he, he']

theorem mark_isPrefix (cs : List Char) : mark e s cs <+: e :: (s ++ cs) := by
  unfold mark
  dsimp only
  split
  · exact List.cons_prefix_cons.mpr ⟨rfl,
      (List.prefix_append_right_inj s).mpr (List.takeWhile_prefix _)⟩
  · exact List.nil_prefix

theorem mark_ne_singleton (c : Char) (cs : List Char) : mark e s cs ≠ [c] := by
  unfold mark
  dsimp only
  split
  next hcond =>
    intro h
    have hempty := List.append_eq_nil_iff.mp (List.cons.inj h).2
    simp [hempty.2] at hcond
  next => exact nofun

end Mark

theorem takeExponent_cases (e : Char) (cs : List Char) :
    ∃ s r, cs = s ++ r ∧ Numeric.takeExponent (e :: cs) = Numeric.takeExponent.mark e s r := by
  cases cs with
  | nil => exact ⟨[], [], rfl, rfl⟩
  | cons c cs =>
    by_cases hc : c = '+' ∨ c = '-'
    · exact ⟨[c], cs, rfl, takeExponent_sign hc e cs⟩
    · exact ⟨[], c :: cs, rfl, takeExponent_of_ne hc e cs⟩

theorem takes_exponent : Takes Numeric.takeExponent where
  isPrefix := by
    intro cs
    cases cs with
    | nil => exact List.nil_prefix
    | cons e cs =>
      obtain ⟨s, r, rfl, hmark⟩ := takeExponent_cases e cs
      rw [hmark]
      exact mark_isPrefix r
  cut := by
    intro u q z d hd h
    match u, q with
    | [], [] =>
      cases hd with
      | done => rfl
      | blank cs =>
        obtain ⟨s, r, -, hmark⟩ := takeExponent_cases ' ' cs
        exact hmark.trans (mark_of_ne (by decide) (by decide))
      | close cs =>
        obtain ⟨s, r, -, hmark⟩ := takeExponent_cases ')' cs
        exact hmark.trans (mark_of_ne (by decide) (by decide))
    | [], [e] =>
      cases hd with
      | done => exact mark_of_cut .done
      | blank cs => exact (takeExponent_of_ne (by decide) e cs).trans (mark_of_cut (.blank cs))
      | close cs => exact (takeExponent_of_ne (by decide) e cs).trans (mark_of_cut (.close cs))
    | [], e :: c :: q =>
      by_cases hc : c = '+' ∨ c = '-'
      · exact (takeExponent_sign hc e _).trans
          (mark_cut_nil hd ((takeExponent_sign hc e _).symm.trans h))
      · exact (takeExponent_of_ne hc e _).trans
          (mark_cut_nil (q := c :: q) hd ((takeExponent_of_ne hc e _).symm.trans h))
    | [e], q =>
      obtain ⟨s, r, -, hmark⟩ := takeExponent_cases e (q ++ z)
      exact absurd (hmark.symm.trans h) (mark_ne_singleton e r)
    | e :: c :: u, q =>
      by_cases hc : c = '+' ∨ c = '-'
      · exact (takeExponent_sign hc e _).trans
          (mark_cut_cons hd ((takeExponent_sign hc e _).symm.trans h))
      · exact (takeExponent_of_ne hc e _).trans
          (mark_cut_cons (u := c :: u) hd ((takeExponent_of_ne hc e _).symm.trans h))

theorem takes_decimal : Takes takeDecimal :=
  (takes_digits.then takes_fraction).then takes_exponent

theorem takes_word : Takes (List.takeWhile isWordPart) :=
  takes_takeWhile rfl rfl

theorem isWordPart_of_isWordStart {c : Char} (h : isWordStart c = true) : isWordPart c = true := by
  unfold isWordStart at h
  unfold isWordPart
  by_cases hc : c.toNat < 128
  · rw [if_pos hc] at h ⊢
    simp only [Bool.or_eq_true, Char.isAlphanum] at h ⊢
    rcases h with (h | h) | h
    · exact .inl (.inl (.inl h))
    · exact .inl (.inr h)
    · exact .inr h
  · rw [if_neg hc] at h ⊢
    exact isAlphanumeric_of_isLetter h

def closes (quote : Char) : List Char → Bool
  | [] => false
  | ['\\'] => false
  | '\\' :: _ :: cs => closes quote cs
  | c :: cs => c = quote || closes quote cs

theorem takeString_cons {quote c : Char} (hc : c ≠ '\\') (cs : List Char) :
    takeString quote (c :: cs) = if c = quote then ([c], [])
      else (c :: (takeString quote cs).1, c :: (takeString quote cs).2) := by
  rw [takeString]
  · exact fun h => absurd h hc
  · exact fun _ _ h => absurd h hc

theorem closes_cons {quote c : Char} (hc : c ≠ '\\') (cs : List Char) :
    closes quote (c :: cs) = (c = quote || closes quote cs) := by
  rw [closes]
  · exact fun h => absurd h hc
  · exact fun _ _ h => absurd h hc

/-- Induction over the characters of a string, with a backslash and what follows it as one. -/
theorem escape_induction {P : List Char → Prop} (nil : P []) (lone : P ['\\'])
    (escape : ∀ c cs, P cs → P ('\\' :: c :: cs)) (plain : ∀ c cs, c ≠ '\\' → P cs → P (c :: cs))
    (cs : List Char) : P cs := by
  match cs with
  | [] => exact nil
  | [c] =>
    by_cases hc : c = '\\'
    · exact hc ▸ lone
    · exact plain c [] hc nil
  | c :: c' :: cs =>
    by_cases hc : c = '\\'
    · exact hc ▸ escape c' cs (escape_induction nil lone escape plain cs)
    · exact plain c (c' :: cs) hc (escape_induction nil lone escape plain (c' :: cs))

theorem takeString_isPrefix (quote : Char) (cs : List Char) : (takeString quote cs).1 <+: cs := by
  induction cs using escape_induction with
  | nil => exact List.nil_prefix
  | lone => exact List.prefix_refl _
  | escape c cs ih => exact List.cons_prefix_cons.mpr ⟨rfl, List.cons_prefix_cons.mpr ⟨rfl, ih⟩⟩
  | plain c cs hc ih =>
    rw [takeString_cons hc]
    split
    · exact List.cons_prefix_cons.mpr ⟨rfl, List.nil_prefix⟩
    · exact List.cons_prefix_cons.mpr ⟨rfl, ih⟩

theorem takeString_append {quote : Char} {t : List Char} (h : closes quote t = true)
    (r : List Char) : takeString quote (t ++ r) = takeString quote t := by
  induction t using escape_induction with
  | nil => cases h
  | lone => cases h
  | escape c cs ih =>
    have hcs := ih h
    simp only [List.cons_append, takeString, hcs]
  | plain c cs hc ih =>
    rw [closes_cons hc] at h
    rw [List.cons_append, takeString_cons hc, takeString_cons hc]
    by_cases hquote : c = quote
    · rw [if_pos hquote, if_pos hquote]
    · simp only [hquote, decide_false, Bool.false_or] at h
      rw [if_neg hquote, if_neg hquote, ih h]

theorem takeString_of_not_closes {quote : Char} {cs : List Char} (h : closes quote cs ≠ true) :
    (takeString quote cs).1 = cs := by
  induction cs using escape_induction with
  | nil => rfl
  | lone => rfl
  | escape c cs ih =>
    have hcs := ih h
    simp only [takeString, hcs]
  | plain c cs hc ih =>
    rw [closes_cons hc] at h
    rw [takeString_cons hc]
    by_cases hquote : c = quote
    · simp [hquote] at h
    · simp only [hquote, decide_false, Bool.false_or] at h
      rw [if_neg hquote, ih h]

theorem closes_takeString {quote : Char} {cs : List Char} (h : closes quote cs = true) :
    closes quote (takeString quote cs).1 = true := by
  induction cs using escape_induction with
  | nil => cases h
  | lone => cases h
  | escape c cs ih => exact ih h
  | plain c cs hc ih =>
    rw [closes_cons hc] at h
    rw [takeString_cons hc]
    by_cases hquote : c = quote
    · rw [if_pos hquote, closes_cons hc]
      simp [hquote]
    · simp only [hquote, decide_false, Bool.false_or] at h
      rw [if_neg hquote, closes_cons hc, ih h, Bool.or_true]

theorem symbol_tail (s : Symbol) : ∀ c ∈ s.chars.tail, c ≠ ' ' ∧ c ≠ ')' := by
  have hall : s.chars.tail.all (fun c => c != ' ' && c != ')') = true := by
    cases s <;> rfl
  simpa using hall

theorem chars_ne_nil (s : Symbol) : s.chars ≠ [] := by
  cases s <;> decide

theorem isPrefix_of_cut {s : Symbol} {u d : List Char} (hu : u ≠ []) (hd : Cut d)
    (h : s.chars <+: u ++ d) : s.chars <+: u := by
  rcases Nat.lt_or_ge u.length s.chars.length with hlen | hlen
  · exfalso
    obtain ⟨e, he⟩ := List.prefix_of_prefix_length_le (List.prefix_append u d) h (by omega)
    rw [← he, List.prefix_append_right_inj] at h
    have htail : ∀ c ∈ e, c ≠ ' ' ∧ c ≠ ')' := by
      intro c hc
      refine symbol_tail s c ?_
      cases u with
      | nil => exact absurd rfl hu
      | cons a u => simp [← he, hc]
    cases e with
    | nil => simp [← he] at hlen
    | cons c e =>
      have hc := htail c List.mem_cons_self
      cases hd with
      | done => cases List.prefix_nil.mp h
      | blank => exact hc.1 (List.cons_prefix_cons.mp h).1
      | close => exact hc.2 (List.cons_prefix_cons.mp h).1
  · exact List.prefix_of_prefix_length_le h (List.prefix_append u d) hlen

theorem longest?_cut {u q z d : List Char} {s : Symbol} (hd : Cut d) (hs : s.chars = u)
    (h : Symbol.longest? (u ++ (q ++ z)) = some s) : Symbol.longest? (u ++ (q ++ d)) = some s := by
  unfold Symbol.longest? at h ⊢
  rw [List.find?_eq_some_iff_append] at h ⊢
  obtain ⟨hfits, before, behind, hall, hnone⟩ := h
  refine ⟨?_, before, behind, hall, fun s' hs' => ?_⟩
  · rw [hs, List.isPrefixOf_iff_prefix]
    exact List.prefix_append _ _
  · have hnot := hnone s' hs'
    simp only [Bool.not_eq_true', ← Bool.not_eq_true, List.isPrefixOf_iff_prefix] at hnot ⊢
    intro hinitial
    refine hnot ?_
    rw [← List.append_assoc] at hinitial ⊢
    refine (isPrefix_of_cut ?_ hd hinitial).trans (List.prefix_append _ _)
    have := chars_ne_nil s
    simp [← hs, this]

theorem number_isPrefix {cs : List Char} {lx : Lexeme} (h : number cs = .ok lx) :
    lx.text <+: cs := by
  unfold number at h
  split at h
  next c rest =>
    split at h
    next radix _ =>
      dsimp only at h
      split at h
      next => cases h
      next =>
        cases h
        exact List.cons_prefix_cons.mpr
          ⟨rfl, List.cons_prefix_cons.mpr ⟨rfl, List.takeWhile_prefix _⟩⟩
    next =>
      cases h
      exact takes_decimal.isPrefix _
  next =>
    cases h
    exact takes_decimal.isPrefix _

theorem takes_radixDigits (radix : Nat) : Takes (List.takeWhile (Numeric.isRadixDigit radix)) :=
  takes_takeWhile rfl rfl

theorem number_decimal {cs : List Char}
    (h : ∀ c rest, cs = '0' :: c :: rest → Numeric.radixOfMark? c = none) :
    number cs = .ok ⟨.number .decimal, takeDecimal cs⟩ := by
  unfold number
  split
  next c rest => rw [h c rest rfl]
  next => rfl

theorem number_radix {c : Char} {radix : Nat} (h : Numeric.radixOfMark? c = some radix)
    (rest : List Char) : number ('0' :: c :: rest) =
      if (rest.takeWhile (Numeric.isRadixDigit radix)).isEmpty ∧ radix = 16 then
        .error ⟨.emptyHexadecimal, ['0', c]⟩
      else .ok ⟨.number (NumberForm.ofRadix radix),
        '0' :: c :: rest.takeWhile (Numeric.isRadixDigit radix)⟩ := by
  simp only [number, h]

theorem number_cut {u q z d : List Char} {k : Token.Kind} (hd : Cut d) (hu : u ≠ [])
    (h : number (u ++ (q ++ z)) = .ok ⟨k, u⟩) : number (u ++ (q ++ d)) = .ok ⟨k, u⟩ := by
  by_cases hmark : ∃ c rest, u ++ (q ++ z) = '0' :: c :: rest ∧ (Numeric.radixOfMark? c).isSome
  · obtain ⟨c, rest, hcs, hradix⟩ := hmark
    obtain ⟨radix, hradix⟩ := Option.isSome_iff_exists.mp hradix
    rw [hcs, number_radix hradix] at h
    split at h
    next => cases h
    next hdigits =>
      cases h
      simp only [List.cons_append, List.cons.injEq, true_and] at hcs ⊢
      rw [number_radix hradix, (takes_radixDigits _).cut _ q z d hd (by rw [hcs]), if_neg hdigits]
  · simp only [not_exists, not_and, Option.not_isSome_iff_eq_none] at hmark
    rw [number_decimal hmark] at h
    obtain ⟨hkind, hdecimal⟩ := Lexeme.mk.inj (Except.ok.inj h)
    have hmark' : ∀ c rest, u ++ (q ++ d) = '0' :: c :: rest → Numeric.radixOfMark? c = none := by
      intro c rest hcs
      match u, q, hu with
      | [_], [], _ =>
        cases hd with
        | done => cases hcs
        | blank => cases hcs; rfl
        | close => cases hcs; rfl
      | [_], b :: q, _ =>
        cases hcs
        exact hmark c (q ++ z) rfl
      | _ :: b :: u, q, _ =>
        cases hcs
        exact hmark c (u ++ (q ++ z)) rfl
    rw [number_decimal hmark', takes_decimal.cut u q z d hd hdecimal, hkind]

theorem takeDecimal_of_isDigit {c : Char} (hc : Numeric.isDigit c = true) (cs : List Char) :
    ∃ t, takeDecimal (c :: cs) = c :: t := by
  unfold takeDecimal
  simp [hc]

theorem number_of_isDigit {c : Char} {cs : List Char} {lx : Lexeme} (hc : Numeric.isDigit c = true)
    (h : number (c :: cs) = .ok lx) : ∃ t, lx.text = c :: t := by
  unfold number at h
  split at h
  next c' rest hcs =>
    cases hcs
    split at h
    next radix _ =>
      dsimp only at h
      split at h
      next => cases h
      next =>
        cases h
        exact ⟨_, rfl⟩
    next =>
      cases h
      exact takeDecimal_of_isDigit hc _
  next =>
    cases h
    exact takeDecimal_of_isDigit hc _

theorem word_text (cs : List Char) : (word cs).text = cs.takeWhile isWordPart := by
  unfold word
  dsimp only
  split <;> rfl

theorem word_congr {cs cs' : List Char} (h : cs.takeWhile isWordPart = cs'.takeWhile isWordPart) :
    word cs = word cs' := by
  unfold word
  rw [h]

theorem next_isPrefix {c : Char} {cs : List Char} {lx : Lexeme} (h : next c cs = .ok lx) :
    ∃ t r, lx.text = c :: t ∧ cs = t ++ r := by
  suffices hsuffices : lx.text <+: c :: cs ∧ lx.text ≠ [] by
    obtain ⟨hinitial, hne⟩ := hsuffices
    obtain ⟨b, t, ht⟩ := List.exists_cons_of_ne_nil hne
    rw [ht] at hinitial
    obtain ⟨rfl, r, hr⟩ := List.cons_prefix_cons.mp hinitial
    exact ⟨t, r, ht, hr.symm⟩
  unfold next at h
  split at h
  next =>
    cases h
    exact ⟨List.cons_prefix_cons.mpr ⟨rfl, takeString_isPrefix c cs⟩, nofun⟩
  next =>
    split at h
    next hdigit =>
      obtain ⟨t, ht⟩ := number_of_isDigit hdigit h
      exact ⟨number_isPrefix h, ht ▸ nofun⟩
    next =>
      split at h
      next hstart =>
        cases h
        rw [word_text]
        refine ⟨List.takeWhile_prefix _, ?_⟩
        simp [isWordPart_of_isWordStart hstart]
      next =>
        split at h
        next s hs =>
          cases h
          exact ⟨List.isPrefixOf_iff_prefix.mp (Symbol.isPrefixOf_of_longest? hs), chars_ne_nil s⟩
        next => cases h

theorem kind_of_number {cs : List Char} {lx : Lexeme} (h : number cs = .ok lx) :
    lx.kind ≠ .endOfInput := by
  unfold number at h
  split at h
  next =>
    split at h
    next =>
      dsimp only at h
      split at h
      next => cases h
      next => cases h; nofun
    next => cases h; nofun
  next => cases h; nofun

/-- Only what begins with a digit is a number, and no lexeme is the end of input. -/
theorem kind_of_next {c : Char} {cs : List Char} {lx : Lexeme} (h : next c cs = .ok lx) :
    lx.kind ≠ .endOfInput ∧ ∀ form, lx.kind = .number form → Numeric.isDigit c = true := by
  unfold next at h
  split at h
  next =>
    cases h
    exact ⟨nofun, nofun⟩
  next =>
    split at h
    next hdigit =>
      exact ⟨kind_of_number h, fun _ _ => hdigit⟩
    next =>
      split at h
      next =>
        cases h
        unfold word
        dsimp only
        split <;> exact ⟨nofun, nofun⟩
      next =>
        split at h
        next => cases h; exact ⟨nofun, nofun⟩
        next => cases h

theorem next_cut {c : Char} {t q z d : List Char} {lx : Lexeme} (hd : Cut d) (ht : lx.text = c :: t)
    (hclosed : isQuote c = true → closes c t = true) (h : next c (t ++ (q ++ z)) = .ok lx) :
    next c (t ++ (q ++ d)) = .ok lx := by
  unfold next at h ⊢
  split at h
  next hquote =>
    rw [if_pos hquote]
    rw [takeString_append (hclosed hquote)] at h ⊢
    exact h
  next hquote =>
    rw [if_neg hquote]
    split at h
    next hdigit =>
      rw [if_pos hdigit]
      obtain ⟨k, text⟩ := lx
      cases ht
      exact number_cut (u := c :: t) hd nofun h
    next hdigit =>
      rw [if_neg hdigit]
      split at h
      next hstart =>
        rw [if_pos hstart]
        have hword := Except.ok.inj h
        have htext : (c :: (t ++ (q ++ z))).takeWhile isWordPart = c :: t := by
          rw [← word_text, hword, ht]
        have htext' : (c :: (t ++ (q ++ d))).takeWhile isWordPart = c :: t :=
          takes_word.cut (c :: t) q z d hd htext
        rw [← hword, word_congr (htext'.trans htext.symm)]
      next hstart =>
        rw [if_neg hstart]
        split at h
        next s hs =>
          cases h
          have hs' : Symbol.longest? (c :: t ++ (q ++ d)) = some s := longest?_cut hd ht hs
          rw [List.cons_append] at hs'
          rw [hs']
        next => cases h

end Lexeme

end ScriptEngine
