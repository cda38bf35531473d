import ScriptEngine.Proofs.Text.Utf8
import ScriptEngine.Proofs.Token.Lexemes

/-!
# Strings byte by byte

A string may be read off the bytes of a text: the loop knows only the quote and the backslash, takes
the byte behind a backslash as it is, and its buffer becomes a text by a conversion that puts a
replacement character for each broken sequence. An escape may take the first byte of a wide
character and leave the others to the loop. The buffer still holds whole characters, those of the
string when it is read by characters.
-/

namespace ScriptEngine

open Text

namespace Lexeme

/-- The bytes of a string behind its opening quote, up to and including the closing quote, and the
buffer that they leave. -/
def takeStringBytes (quote : UInt8) : List UInt8 → List UInt8 × List UInt8
  | [] => ([], [])
  | b :: bs =>
    if b = quote then ([b], [])
    else if b = 0x5C then
      match bs with
      | [] => ([b], [])
      | c :: bs =>
        let (taken, buffer) := takeStringBytes quote bs
        (b :: c :: taken, unescapeByte c :: buffer)
    else
      let (taken, buffer) := takeStringBytes quote bs
      (b :: taken, b :: buffer)

section Bytes

variable {quote : UInt8} {c d : Char}

theorem takeStringBytes_quote (bs : List UInt8) :
    takeStringBytes quote (quote :: bs) = ([quote], []) := by
  unfold takeStringBytes
  rw [if_pos rfl]

theorem takeStringBytes_escape (hquote : quote ≠ 0x5C) (b : UInt8) (bs : List UInt8) :
    takeStringBytes quote (0x5C :: b :: bs) = (0x5C :: b :: (takeStringBytes quote bs).1,
      unescapeByte b :: (takeStringBytes quote bs).2) := by
  rw [takeStringBytes, if_neg hquote.symm, if_pos rfl]

theorem takeStringBytes_plain {b : UInt8} (hquote : b ≠ quote) (hb : b ≠ 0x5C) (bs : List UInt8) :
    takeStringBytes quote (b :: bs) =
      (b :: (takeStringBytes quote bs).1, b :: (takeStringBytes quote bs).2) := by
  rw [takeStringBytes.eq_def]
  simp only [if_neg hquote, if_neg hb]

theorem takeStringBytes_wide (hquote : quote < 128) {wide : List UInt8}
    (hwide : ∀ b ∈ wide, 128 ≤ b) (bs : List UInt8) : takeStringBytes quote (wide ++ bs) =
      (wide ++ (takeStringBytes quote bs).1, wide ++ (takeStringBytes quote bs).2) := by
  induction wide with
  | nil => rfl
  | cons b wide ih =>
    have hb : 128 ≤ b := hwide b List.mem_cons_self
    have hne : b ≠ quote := by
      rintro rfl
      exact absurd hb (UInt8.not_le.mpr hquote)
    have hbackslash : b ≠ 0x5C := by
      rintro rfl
      exact absurd hb (by decide)
    rw [List.cons_append, takeStringBytes_plain hne hbackslash,
      ih fun x hx => hwide x (List.mem_cons_of_mem b hx)]
    rfl

theorem unescapeByte_toUInt8 (hc : c.toNat < 128) :
    String.utf8EncodeChar (unescape c) = [unescapeByte c.toUInt8] := by
  have hne {d : Char} (hd : d.toNat < 128) (hcd : c ≠ d) : c.toUInt8 ≠ d.toUInt8 :=
    fun h => hcd (toUInt8_inj hc hd h)
  unfold unescape
  split
  next hn => rw [hn]; rfl
  next hn =>
    split
    next ht => rw [ht]; rfl
    next ht =>
      split
      next hr => rw [hr]; rfl
      next hr =>
        have hn' : c.toUInt8 ≠ 0x6E := hne (d := 'n') (by decide) hn
        have ht' : c.toUInt8 ≠ 0x74 := hne (d := 't') (by decide) ht
        have hr' : c.toUInt8 ≠ 0x72 := hne (d := 'r') (by decide) hr
        rw [utf8EncodeChar_of_lt hc, unescapeByte, if_neg hn', if_neg ht', if_neg hr']

theorem unescape_of_not_lt (hc : ¬c.toNat < 128) : unescape c = c := by
  have hne {d : Char} (hd : d.toNat < 128) : c ≠ d := by
    rintro rfl
    exact hc hd
  rw [unescape, if_neg (hne (by decide)), if_neg (hne (by decide)), if_neg (hne (by decide))]

theorem unescapeByte_of_le {b : UInt8} (hb : 128 ≤ b) : unescapeByte b = b := by
  have hne {d : UInt8} (hd : d < 128) : b ≠ d := by
    rintro rfl
    exact absurd hb (UInt8.not_le.mpr hd)
  rw [unescapeByte, if_neg (hne (by decide)), if_neg (hne (by decide)), if_neg (hne (by decide))]

theorem isQuote_cases (hc : isQuote c = true) : c = '"' ∨ c = '\x27' := by
  simpa [isQuote] using hc

theorem isQuote_ascii (hc : isQuote c = true) : c.toNat < 128 ∧ c ≠ '\\' := by
  obtain rfl | rfl := isQuote_cases hc <;> decide

/-- Byte by byte a string takes what it takes by characters, and its buffer holds the bytes of its
value. -/
theorem takeStringBytes_utf8 {q : Char} (hq : isQuote q = true) (cs : List Char) :
    takeStringBytes q.toUInt8 (utf8 cs) =
      (utf8 (takeString q cs).1, utf8 (takeString q cs).2) := by
  obtain ⟨hascii, hbackslash⟩ := isQuote_ascii hq
  have hquote : q.toUInt8 ≠ 0x5C := fun h =>
    hbackslash (toUInt8_inj (d := '\\') hascii (by decide) h)
  have hlow : q.toUInt8 < 128 := by
    rw [UInt8.lt_iff_toNat_lt, toNat_toUInt8]
    exact Nat.lt_of_le_of_lt (Nat.mod_le _ _) hascii
  induction cs using escape_induction with
  | nil => rfl
  | lone =>
    have hlone : utf8 ['\\'] = [0x5C] := rfl
    rw [hlone, takeStringBytes, if_neg hquote.symm, if_pos rfl]
    rfl
  | escape c cs ih =>
    have hbackslash : String.utf8EncodeChar '\\' = [0x5C] := rfl
    simp only [takeString, utf8_cons, hbackslash, List.singleton_append]
    by_cases hc : c.toNat < 128
    · rw [utf8EncodeChar_of_lt hc, unescapeByte_toUInt8 hc, List.singleton_append,
        List.singleton_append, List.singleton_append, takeStringBytes_escape hquote, ih]
    · have hwide (b : UInt8) (hb : b ∈ String.utf8EncodeChar c) := le_of_mem_utf8EncodeChar hc hb
      rw [unescape_of_not_lt hc]
      -- The escape takes the first byte, the loop copies the others.
      cases hcons : String.utf8EncodeChar c with
      | nil => exact absurd hcons (utf8EncodeChar_ne_nil c)
      | cons b bs =>
        rw [hcons] at hwide
        rw [List.cons_append, takeStringBytes_escape hquote,
          takeStringBytes_wide hlow fun x hx => hwide x (List.mem_cons_of_mem b hx), ih,
          unescapeByte_of_le (hwide b List.mem_cons_self)]
        rfl
  | plain c cs hc ih =>
    rw [takeString_cons hc, utf8_cons]
    by_cases hlt : c.toNat < 128
    · have hbackslash : c.toUInt8 ≠ 0x5C := fun h => hc (toUInt8_inj (d := '\\') hlt (by decide) h)
      rw [utf8EncodeChar_of_lt hlt, List.singleton_append]
      split
      next heq =>
        subst heq
        rw [takeStringBytes_quote, utf8_cons, utf8EncodeChar_of_lt hlt]
        rfl
      next hne =>
        rw [takeStringBytes_plain (fun h => hne (toUInt8_inj hlt hascii h)) hbackslash, ih,
          utf8_cons, utf8_cons, utf8EncodeChar_of_lt hlt]
        rfl
    · have hne : c ≠ q := by
        rintro rfl
        exact hlt hascii
      rw [if_neg hne, takeStringBytes_wide hlow fun b hb => le_of_mem_utf8EncodeChar hlt hb, ih]
      rfl

end Bytes

end Lexeme

end ScriptEngine
