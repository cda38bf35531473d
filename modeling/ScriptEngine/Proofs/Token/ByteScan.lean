import ScriptEngine.Proofs.Token.StringBytes

/-!
# Scanning by bytes and by characters

The scanner walks over bytes, and every step of it is one over characters: where it stands the bytes
that are left are those of a text, and each of its loops takes the bytes of the characters that the
loop over characters takes. The bytes of wide characters pass no test for an ASCII character, and a
whole character is decoded where it begins. So the places it comes to are character boundaries, and
the text between two of them is never lost.
-/

namespace ScriptEngine

open Text SyntaxError

namespace Scanner

variable {source : ByteArray} {p : Position}

def rest (source : ByteArray) (p : Position) : List UInt8 :=
  source.data.toList.drop p.offset

section Bytes

variable {b : UInt8} {bs tail : List UInt8}

theorem peek_eq : peek source p = (rest source p).head? := by
  unfold peek rest
  rw [List.head?_drop]
  exact (Array.getElem?_toList ..).symm

theorem peekAt_eq (k : Nat) : peekAt source k p = (rest source p)[k]? := by
  unfold peekAt rest
  rw [List.getElem?_drop]
  exact (Array.getElem?_toList ..).symm

theorem rest_overBytes (h : rest source p = bs ++ tail) : rest source (p.overBytes bs) = tail := by
  unfold rest at h ⊢
  rw [Position.offset_overBytes, ← List.drop_drop, h, List.drop_left]

theorem advance_eq (h : rest source p = b :: tail) : advance source p = p.stepByte b := by
  unfold advance
  rw [peek_eq, h]
  rfl

theorem rest_stepByte (h : rest source p = b :: tail) : rest source (p.stepByte b) = tail := by
  have hsplit : rest source p = [b] ++ tail := h
  exact rest_overBytes hsplit

theorem skip_eq (h : rest source p = bs ++ tail) : skip source bs.length p = p.overBytes bs := by
  induction bs generalizing p with
  | nil => rfl
  | cons b bs ih =>
    rw [List.length_cons, skip, advance_eq h, ih (rest_stepByte h), Position.overBytes_cons]

theorem peek_of_rest (h : rest source p = b :: tail) : peek source p = some b := by
  rw [peek_eq, h]
  rfl

theorem peek_of_nil (h : rest source p = []) : peek source p = none := by
  rw [peek_eq, h]
  rfl

theorem skipWhile_step (test : UInt8 → Bool) : skipWhile source test p =
    match peek source p with
    | some b => if test b then skipWhile source test (advance source p) else p
    | none => p := by
  rw [skipWhile]
  split <;> simp only [*]

theorem skipComment_step : skipComment source p =
    match peek source p with
    | none => p
    | some b =>
      if b = '*'.toUInt8 ∧ peekAt source 1 p = some '/'.toUInt8 then
        advance source (advance source p)
      else skipComment source (advance source p) := by
  rw [skipComment]
  split <;> simp only [*]

theorem skipGap_step : skipGap source p =
    match peek source p with
    | none => p
    | some b =>
      if Lexeme.isGap (Char.ofUInt8 b) then skipGap source (advance source p)
      else if b = '/'.toUInt8 ∧ peekAt source 1 p = some '/'.toUInt8 then
        skipGap source (skipWhile source (· ≠ '\n'.toUInt8) p)
      else if b = '/'.toUInt8 ∧ peekAt source 1 p = some '*'.toUInt8 then
        skipGap source (skipComment source (advance source (advance source p)))
      else p := by
  rw [skipGap]
  split <;> simp only [*, dite_eq_ite]

theorem skipWord_step : skipWord source p =
    match peek source p with
    | none => p
    | some b =>
      if isWordByte b then skipWord source (advance source p)
      else
        match charAt source p.offset with
        | some c =>
          if 128 ≤ c.toNat ∧ isAlphanumeric c then skipWord source (skip source c.utf8Size p) else p
        | none => p := by
  rw [skipWord]
  split
  next heq => rw [heq]
  next heq =>
    rewrite [heq]
    rfl

theorem takeString_step (quote : UInt8) (buffer : Array UInt8) : takeString source quote buffer p =
    match peek source p with
    | none => (buffer, p)
    | some b =>
      if b = quote then (buffer, advance source p)
      else if b = '\\'.toUInt8 then
        match peek source (advance source p) with
        | some escaped => takeString source quote (buffer.push (Lexeme.unescapeByte escaped))
            (advance source (advance source p))
        | none => (buffer, advance source p)
      else takeString source quote (buffer.push b) (advance source p) := by
  rw [takeString]
  split
  next heq => rw [heq]
  next heq =>
    rewrite [heq]
    rfl

theorem skipWhile_eq {test : UInt8 → Bool} (h : rest source p = bs) :
    skipWhile source test p = p.overBytes (bs.takeWhile test) := by
  induction bs generalizing p with
  | nil =>
    rw [skipWhile_step, peek_of_nil h]
    rfl
  | cons b bs ih =>
    rw [skipWhile_step, peek_of_rest h, List.takeWhile_cons]
    dsimp only
    split
    · rw [advance_eq h, ih (rest_stepByte h), Position.overBytes_cons]
    · rfl

/-- The string loop takes the bytes, and leaves the buffer, of the recursion on the bytes. -/
theorem takeString_eq (quote : UInt8) (buffer : Array UInt8) (h : rest source p = bs) :
    takeString source quote buffer p =
      (buffer ++ (Lexeme.takeStringBytes quote bs).2.toArray,
        p.overBytes (Lexeme.takeStringBytes quote bs).1) := by
  have hbackslash : '\\'.toUInt8 = 0x5C := rfl
  fun_induction Lexeme.takeStringBytes quote bs generalizing buffer p with
  | case1 =>
    rw [takeString_step, peek_of_nil h]
    simp
  | case2 bs =>
    rw [takeString_step, peek_of_rest h]
    simp only [advance_eq h, if_true]
    simp
  | case3 hquote =>
    have hnone : peek source (p.stepByte 0x5C) = none := peek_of_nil (rest_stepByte h)
    rw [takeString_step, peek_of_rest h]
    simp only [hbackslash, advance_eq h, hnone, if_neg hquote, if_true]
    simp
  | case4 c bs taken buffer' hrec hquote ih =>
    have hrest := rest_stepByte h
    rw [takeString_step, peek_of_rest h]
    simp only [hbackslash, advance_eq h, peek_of_rest hrest, advance_eq hrest, if_neg hquote,
      if_true, ih _ (rest_stepByte hrest), hrec]
    simp
  | case5 b bs hquote hother taken buffer' hrec ih =>
    rw [takeString_step, peek_of_rest h]
    simp only [hbackslash, advance_eq h, if_neg hquote, if_neg hother, ih _ (rest_stepByte h), hrec]
    simp

end Bytes

/-- The bytes from a place on are those of a text. -/
def Stands (source : ByteArray) (p : Position) (cs : List Char) : Prop :=
  rest source p = utf8 cs

theorem stands_first (text : String) : Stands text.toByteArray Position.first text.toList := by
  unfold Stands rest
  rw [toList_toByteArray]
  rfl

section Characters

variable {c : Char} {cs tail : List Char}

theorem Stands.advance (h : Stands source p (cs ++ tail)) : Stands source (p.advance cs) tail := by
  unfold Stands at h ⊢
  rw [utf8_append] at h
  rw [← Position.overBytes_utf8]
  exact rest_overBytes h

theorem Stands.step (h : Stands source p (c :: cs)) : Stands source (p.step c) cs := by
  have hsplit : Stands source p ([c] ++ cs) := h
  exact hsplit.advance

theorem Stands.ascii (h : Stands source p (c :: cs)) (hc : c.toNat < 128) :
    rest source p = c.toUInt8 :: utf8 cs := by
  unfold Stands at h
  rw [h, utf8_cons, utf8EncodeChar_of_lt hc]
  rfl

theorem Stands.wide (h : Stands source p (c :: cs)) (hc : ¬c.toNat < 128) :
    ∃ b bs, String.utf8EncodeChar c = b :: bs ∧ 128 ≤ b ∧ rest source p = b :: (bs ++ utf8 cs) := by
  obtain ⟨b, bs, hbytes⟩ := List.exists_cons_of_ne_nil (utf8EncodeChar_ne_nil c)
  refine ⟨b, bs, hbytes, le_of_mem_utf8EncodeChar hc (hbytes ▸ List.mem_cons_self), ?_⟩
  unfold Stands at h
  rw [h, utf8_cons, hbytes]
  rfl

theorem Stands.advance_ascii (h : Stands source p (c :: cs)) (hc : c.toNat < 128) :
    Scanner.advance source p = p.step c := by
  rw [advance_eq (h.ascii hc), Position.stepByte_toUInt8 p hc]

theorem Stands.skip (h : Stands source p (c :: cs)) : Scanner.skip source c.utf8Size p = p.step c :=
    by
  unfold Stands at h
  rw [utf8_cons] at h
  rw [← String.length_utf8EncodeChar, skip_eq h, Position.overBytes_utf8EncodeChar]

theorem toList_extract (start stop : Nat) :
    (source.extract start stop).data.toList = (source.data.toList.drop start).take (stop - start) :=
    by
  rw [ByteArray.data_extract, Array.toList_extract, List.extract_eq_take_drop]

theorem Stands.charAt (h : Stands source p (c :: cs)) : charAt source p.offset = some c := by
  have hextract : source.extract p.offset source.size =
      (String.utf8EncodeChar c).toByteArray ++ (utf8 cs).toByteArray := by
    apply ByteArray.ext
    apply Array.toList_inj.1
    rw [toList_extract, List.take_of_length_le (by simp), ← List.toByteArray_append,
      List.data_toByteArray]
    exact h
  unfold Scanner.charAt
  rw [ByteArray.utf8DecodeChar?_eq_utf8DecodeChar?_extract, hextract]
  exact ByteArray.utf8DecodeChar?_utf8EncodeChar_append

theorem Stands.textFrom (h : Stands source p (cs ++ tail)) :
    textFrom source p (p.advance cs) = String.ofList cs := by
  have hextract : source.extract p.offset (p.advance cs).offset = cs.utf8Encode := by
    apply ByteArray.ext
    apply Array.toList_inj.1
    rw [toList_extract, ← Position.overBytes_utf8, Position.offset_overBytes,
      Nat.add_sub_cancel_left,
      List.utf8Encode, List.data_toByteArray]
    unfold Stands rest at h
    rw [h, utf8_append, List.take_left]
    rfl
  unfold Scanner.textFrom String.fromUTF8?
  rw [hextract, dif_pos ByteArray.isValidUTF8_utf8Encode]
  rfl

theorem Stands.make (h : Stands source p (cs ++ tail)) (kind : Token.Kind) :
    make source kind p (p.advance cs) = ⟨kind, String.ofList cs, p.spanTo (p.advance cs)⟩ := by
  unfold Scanner.make
  rw [h.textFrom]

theorem Stands.fault (h : Stands source p (cs ++ tail)) (cause : Cause) :
    fault source cause p (p.advance cs) =
      ⟨cause, p.spanTo (p.advance cs), some (String.ofList cs)⟩ := by
  unfold Scanner.fault
  rw [h.textFrom]

theorem Stands.fault_first (h : Stands source p (c :: cs)) (cause : Cause) :
    Scanner.fault source cause p (p.step c) =
      ⟨cause, p.spanTo (p.step c), some (String.ofList [c])⟩ := by
  have hsplit : Stands source p ([c] ++ cs) := h
  exact hsplit.fault cause

end Characters

section Tests

/-- A test that only ASCII characters pass. -/
def IsAscii (test : Char → Bool) : Prop :=
  ∀ c, ¬c.toNat < 128 → test c = false

variable {test : Char → Bool} {c : Char} {cs : List Char}

theorem ofUInt8_toUInt8 (hc : c.toNat < 128) : Char.ofUInt8 c.toUInt8 = c := by
  apply Char.ext
  apply UInt32.toNat_inj.1
  change c.toUInt8.toUInt32.toNat = c.toNat
  rw [UInt8.toNat_toUInt32, toNat_toUInt8]
  omega

theorem IsAscii.of_wide (h : IsAscii test) {b : UInt8} (hb : 128 ≤ b) :
    test (Char.ofUInt8 b) = false := by
  apply h
  have hle : 128 ≤ b.toNat := UInt8.le_iff_toNat_le.mp hb
  change ¬b.toUInt32.toNat < 128
  rw [UInt8.toNat_toUInt32]
  omega

theorem IsAscii.head (h : IsAscii test) {b : UInt8} {tail : List UInt8}
    (hbytes : utf8 (c :: cs) = b :: tail) : test (Char.ofUInt8 b) = test c := by
  rw [utf8_cons] at hbytes
  by_cases hc : c.toNat < 128
  · rw [utf8EncodeChar_of_lt hc] at hbytes
    rw [← (List.cons.inj hbytes).1, ofUInt8_toUInt8 hc]
  · obtain ⟨b', bs, hwide⟩ := List.exists_cons_of_ne_nil (utf8EncodeChar_ne_nil c)
    rw [hwide] at hbytes
    rw [← (List.cons.inj hbytes).1, h c hc,
      h.of_wide (le_of_mem_utf8EncodeChar hc (hwide ▸ List.mem_cons_self))]

theorem IsAscii.takeWhile (h : IsAscii test) (cs : List Char) :
    (utf8 cs).takeWhile (fun b => test (Char.ofUInt8 b)) = utf8 (cs.takeWhile test) := by
  induction cs with
  | nil => rfl
  | cons c cs ih =>
    by_cases hc : c.toNat < 128
    · rw [utf8_cons, utf8EncodeChar_of_lt hc, List.singleton_append, List.takeWhile_cons,
        List.takeWhile_cons, ofUInt8_toUInt8 hc]
      split
      · rw [ih, utf8_cons, utf8EncodeChar_of_lt hc]
        rfl
      · rfl
    · obtain ⟨b, bs, hwide⟩ := List.exists_cons_of_ne_nil (utf8EncodeChar_ne_nil c)
      rw [utf8_cons, hwide, List.cons_append, List.takeWhile_cons, List.takeWhile_cons, h c hc,
        h.of_wide (le_of_mem_utf8EncodeChar hc (hwide ▸ List.mem_cons_self))]
      rfl

theorem IsAscii.skipWhile (h : IsAscii test) (hstands : Stands source p cs) :
    skipWhile source (fun b => test (Char.ofUInt8 b)) p = p.advance (cs.takeWhile test) := by
  rw [skipWhile_eq hstands, h.takeWhile, Position.overBytes_utf8]

theorem IsAscii.peek (h : IsAscii test) (hstands : Stands source p cs) :
    ((peek source p).any fun b => test (Char.ofUInt8 b)) = cs.head?.any test := by
  rw [peek_eq, hstands]
  cases cs with
  | nil => rfl
  | cons c cs =>
    cases hbytes : utf8 (c :: cs) with
    | nil => exact absurd hbytes (by simp)
    | cons b tail => exact h.head hbytes

theorem Stands.peek_eq_iff (h : Stands source p cs) {d : Char} (hd : d.toNat < 128) :
    Scanner.peek source p = some d.toUInt8 ↔ cs.head? = some d := by
  cases cs with
  | nil =>
    rw [peek_of_nil h]
    exact iff_of_false nofun nofun
  | cons c cs =>
    rw [List.head?_cons, Option.some.injEq]
    by_cases hc : c.toNat < 128
    · rw [peek_of_rest (h.ascii hc), Option.some.injEq]
      exact ⟨toUInt8_inj hc hd, congrArg Char.toUInt8⟩
    · obtain ⟨b, bs, -, hb, hrest⟩ := h.wide hc
      rw [peek_of_rest hrest, Option.some.injEq]
      refine iff_of_false ?_ ?_
      · rintro rfl
        rw [UInt8.le_iff_toNat_le, toNat_toUInt8, Nat.mod_eq_of_lt (by omega)] at hb
        exact absurd hd (Nat.not_lt.2 hb)
      · rintro rfl
        exact hc hd

theorem Stands.peekAt_succ (h : Stands source p (c :: cs)) (hc : c.toNat < 128) (k : Nat) :
    peekAt source (k + 1) p = peekAt source k (p.step c) := by
  have hstep := h.step
  unfold Stands at hstep
  rw [peekAt_eq, peekAt_eq, h.ascii hc, hstep]
  rfl

theorem peekAt_zero : peekAt source 0 p = Scanner.peek source p :=
  rfl

end Tests

section Gaps

open Lexeme

variable {c : Char} {cs : List Char}

theorem isAscii_isGap : IsAscii isGap := by
  intro c hc
  have hne {d : Char} (hd : d.toNat < 128) : c ≠ d := by
    rintro rfl
    exact hc hd
  simp [isGap, hne (d := ' ') (by decide), hne (d := '\t') (by decide), hne (d := '\r') (by decide),
    hne (d := '\n') (by decide), hne (d := '\x0b') (by decide), hne (d := '\x0c') (by decide)]

theorem skipGap_of_nil (h : Stands source p []) : skipGap source p = p := by
  rw [skipGap_step, peek_of_nil h]

theorem skipGap_of_isGap (h : Stands source p (c :: cs)) (hc : isGap c = true) :
    skipGap source p = skipGap source (p.step c) := by
  have hascii : c.toNat < 128 := by
    by_contra hwide
    rw [isAscii_isGap c hwide] at hc
    cases hc
  rw [skipGap_step, peek_of_rest (h.ascii hascii)]
  simp only [ofUInt8_toUInt8 hascii, hc, if_true, h.advance_ascii hascii]

def skipMode (source : ByteArray) : Skipping → Position → Position
  | .blank, p => skipGap source p
  | .line, p => skipGap source (Scanner.skipWhile source (· ≠ '\n'.toUInt8) p)
  | .block, p => skipGap source (skipComment source p)

theorem skipMode_blank (p : Position) : skipMode source .blank p = skipGap source p := rfl

theorem skipMode_line (p : Position) : skipMode source .line p =
    skipGap source (Scanner.skipWhile source (· ≠ '\n'.toUInt8) p) := rfl

theorem skipMode_block (p : Position) :
    skipMode source .block p = skipGap source (skipComment source p) := rfl

theorem skipWhile_of_all {test : UInt8 → Bool} {bs tail : List UInt8}
    (h : rest source p = bs ++ tail) (hall : ∀ b ∈ bs, test b = true) :
    Scanner.skipWhile source test p = Scanner.skipWhile source test (p.overBytes bs) := by
  rw [skipWhile_eq h, skipWhile_eq (rest_overBytes h), List.takeWhile_append_of_pos hall,
    Position.overBytes_append]

theorem skipLine_step (h : Stands source p (c :: cs)) (hc : c ≠ '\n') :
    skipMode source .line p = skipMode source .line (p.step c) := by
  have hall : ∀ b ∈ String.utf8EncodeChar c, decide (b ≠ '\n'.toUInt8) = true := by
    intro b hb
    rw [decide_eq_true_iff]
    rintro rfl
    by_cases hascii : c.toNat < 128
    · rw [utf8EncodeChar_of_lt hascii, List.mem_singleton] at hb
      exact hc (toUInt8_inj hascii (by decide) hb.symm)
    · exact absurd (le_of_mem_utf8EncodeChar hascii hb) (by decide)
  rw [skipMode_line, skipMode_line, skipWhile_of_all h hall, Position.overBytes_utf8EncodeChar]

theorem skipComment_of_rest {b : UInt8} {tail : List UInt8} (h : rest source p = b :: tail)
    (hopen : b = '*'.toUInt8 → tail.head? ≠ some '/'.toUInt8) :
    skipComment source p = skipComment source (p.stepByte b) := by
  have hnext : peekAt source 1 p = tail.head? := by
    rw [peekAt_eq, h]
    exact List.head?_eq_getElem?.symm
  rw [skipComment_step, peek_of_rest h]
  simp only [hnext, advance_eq h]
  exact if_neg fun hclose => hopen hclose.1 hclose.2

theorem skipComment_of_wide {bs tail : List UInt8} (h : rest source p = bs ++ tail)
    (hall : ∀ b ∈ bs, 128 ≤ b) : skipComment source p = skipComment source (p.overBytes bs) := by
  induction bs generalizing p with
  | nil => rfl
  | cons b bs ih =>
    have hb : b ≠ '*'.toUInt8 := by
      rintro rfl
      exact absurd (hall _ List.mem_cons_self) (by decide)
    rw [skipComment_of_rest h fun heq => absurd heq hb, ih (rest_stepByte h)
      fun x hx => hall x (List.mem_cons_of_mem b hx), Position.overBytes_cons]

theorem skipBlock_step (h : Stands source p (c :: cs)) (hopen : c = '*' → cs.head? ≠ some '/') :
    skipMode source .block p = skipMode source .block (p.step c) := by
  rw [skipMode_block, skipMode_block]
  by_cases hc : c.toNat < 128
  · rw [skipComment_of_rest (h.ascii hc), Position.stepByte_toUInt8 p hc]
    intro hstar hslash
    have hpeek := h.step.peek_eq_iff (d := '/') (by decide)
    rw [peek_eq, h.step] at hpeek
    exact hopen (toUInt8_inj hc (by decide) hstar) (hpeek.1 hslash)
  · rw [skipComment_of_wide h fun b hb => le_of_mem_utf8EncodeChar hc hb,
      Position.overBytes_utf8EncodeChar]

theorem skipGap_of_other (h : Stands source p (c :: cs)) (hgap : isGap c = false)
    (hother : c = '/' → ∀ d ∈ cs.head?, d ≠ '/' ∧ d ≠ '*') : skipGap source p = p := by
  by_cases hc : c.toNat < 128
  · have hcomment {d : Char} (hd : d.toNat < 128) (hne : d = '/' ∨ d = '*') :
        ¬(c.toUInt8 = '/'.toUInt8 ∧ peekAt source 1 p = some d.toUInt8) := by
      rintro ⟨hslash, hnext⟩
      rw [h.peekAt_succ hc, peekAt_zero, h.step.peek_eq_iff hd] at hnext
      have hnot := hother (toUInt8_inj hc (by decide) hslash) d hnext
      exact hne.elim hnot.1 hnot.2
    rw [skipGap_step, peek_of_rest (h.ascii hc)]
    simp only [ofUInt8_toUInt8 hc, hgap, Bool.false_eq_true, if_false]
    rw [if_neg (hcomment (by decide) (.inl rfl)), if_neg (hcomment (by decide) (.inr rfl))]
  · obtain ⟨b, bs, -, hb, hrest⟩ := h.wide hc
    have hslash : b ≠ '/'.toUInt8 := by
      rintro rfl
      exact absurd hb (by decide)
    rw [skipGap_step, peek_of_rest hrest]
    simp only [isAscii_isGap.of_wide hb, hslash, false_and, Bool.false_eq_true, if_false]

theorem skipBlank_line (h : Stands source p ('/' :: '/' :: cs)) :
    skipMode source .blank p = skipMode source .line p := by
  have hslash : ('/' : Char).toNat < 128 := by decide
  have hnext := (h.step.peek_eq_iff hslash).2 rfl
  rw [skipMode_blank, skipGap_step, peek_of_rest (h.ascii hslash), h.peekAt_succ hslash,
    peekAt_zero, hnext]
  rfl

theorem skipBlank_block (h : Stands source p ('/' :: '*' :: cs)) :
    skipMode source .blank p = skipMode source .block ((p.step '/').step '*') := by
  have hslash : ('/' : Char).toNat < 128 := by decide
  have hstar : ('*' : Char).toNat < 128 := by decide
  have hnext := (h.step.peek_eq_iff hstar).2 rfl
  rw [skipMode_blank, skipGap_step, peek_of_rest (h.ascii hslash), h.peekAt_succ hslash,
    peekAt_zero, hnext, h.advance_ascii hslash, h.step.advance_ascii hstar]
  rfl

theorem skipLine_newline (h : Stands source p ('\n' :: cs)) :
    skipMode source .line p = skipMode source .blank (p.step '\n') := by
  have hstop : skipMode source .line p = skipMode source .blank p := by
    rw [skipMode_line, skipWhile_eq (h.ascii (by decide))]
    rfl
  exact hstop.trans (skipGap_of_isGap h rfl)

theorem skipBlock_close (h : Stands source p ('*' :: '/' :: cs)) :
    skipMode source .block p = skipMode source .blank ((p.step '*').step '/') := by
  have hslash : ('/' : Char).toNat < 128 := by decide
  have hstar : ('*' : Char).toNat < 128 := by decide
  have hnext := (h.step.peek_eq_iff hslash).2 rfl
  rw [skipMode_block, skipComment_step, peek_of_rest (h.ascii hstar), h.peekAt_succ hstar,
    peekAt_zero, hnext, h.advance_ascii hstar, h.step.advance_ascii hslash]
  rfl

theorem skipMode_eq (mode : Skipping) (h : Stands source p cs) :
    skipMode source mode p = p.advance (splitGap mode cs).1 := by
  fun_induction splitGap mode cs generalizing p with
  | case1 mode =>
    cases mode with
    | blank => exact skipGap_of_nil h
    | line =>
      rw [skipMode_line, skipWhile_eq h]
      exact skipGap_of_nil h
    | block =>
      rw [skipMode_block, skipComment_step, peek_of_nil h]
      exact skipGap_of_nil h
  | case2 cs gap rest hsplit ih =>
    rw [skipBlank_line h, skipLine_step h (by decide), skipLine_step h.step (by decide),
      ih h.step.step, hsplit]
    rfl
  | case3 cs gap rest hsplit ih =>
    rw [skipBlank_block h, ih h.step.step, hsplit]
    rfl
  | case4 c cs hline hblock hgap gap rest hsplit ih =>
    have hskip : skipMode source .blank p = skipMode source .blank (p.step c) :=
      skipGap_of_isGap h hgap
    rw [hskip, ih h.step, hsplit]
    rfl
  | case5 c cs hline hblock hgap =>
    refine skipGap_of_other h (by simpa using hgap) fun hc d hd => ⟨?_, ?_⟩
    · rintro rfl
      obtain ⟨tail, rfl⟩ := List.head?_eq_some_iff.1 hd
      exact hline tail hc rfl
    · rintro rfl
      obtain ⟨tail, rfl⟩ := List.head?_eq_some_iff.1 hd
      exact hblock tail hc rfl
  | case6 c cs gap rest hsplit ih =>
    by_cases hc : c = '\n'
    · subst hc
      rw [if_pos rfl] at hsplit ih
      rw [skipLine_newline h, ih h.step, hsplit]
      rfl
    · rw [if_neg hc] at hsplit ih
      rw [skipLine_step h hc, ih h.step, hsplit]
      rfl
  | case7 cs gap rest hsplit ih =>
    rw [skipBlock_close h, ih h.step.step, hsplit]
    rfl
  | case8 c cs hclose gap rest hsplit ih =>
    rw [skipBlock_step h, ih h.step, hsplit]
    · rfl
    · intro hc hhead
      obtain ⟨tail, rfl⟩ := List.head?_eq_some_iff.1 hhead
      exact hclose tail hc rfl

theorem skipGap_eq (h : Stands source p cs) :
    skipGap source p = p.advance (splitGap .blank cs).1 :=
  skipMode_eq .blank h

end Gaps

section Words

open Lexeme

variable {c : Char} {cs : List Char}

theorem isWordByte_toUInt8 (hc : c.toNat < 128) : isWordByte c.toUInt8 = isWordPart c := by
  unfold isWordByte isWordPart
  rw [ofUInt8_toUInt8 hc, if_pos hc]

theorem isWordByte_of_wide {b : UInt8} (hb : 128 ≤ b) : isWordByte b = false := by
  revert b
  apply byte_cases
  decide +kernel

theorem skipWord_eq (h : Stands source p cs) :
    skipWord source p = p.advance (cs.takeWhile isWordPart) := by
  induction cs generalizing p with
  | nil => rw [skipWord_step, peek_of_nil h, List.takeWhile_nil, Position.advance_nil]
  | cons c cs ih =>
    rw [skipWord_step, List.takeWhile_cons]
    by_cases hc : c.toNat < 128
    · rw [peek_of_rest (h.ascii hc)]
      simp only [isWordByte_toUInt8 hc, h.charAt, h.advance_ascii hc, ih h.step]
      split
      · rfl
      · rw [if_neg (by omega)]
        rfl
    · obtain ⟨b, bs, -, hb, hrest⟩ := h.wide hc
      have hpart : isWordPart c = isAlphanumeric c := if_neg hc
      rw [peek_of_rest hrest]
      simp only [isWordByte_of_wide hb, h.charAt, h.skip, ih h.step, hpart, Bool.false_eq_true,
        if_false, Nat.not_lt.1 hc, true_and]
      split <;> rfl

theorem scanWord_eq {start : Position} (h : Stands source start (c :: cs))
    (hc : isWordPart c = true) :
    scanWord source start (start.step c) =
      (Token.ofLexeme (Lexeme.word (c :: cs)) start,
        start.advance (Lexeme.word (c :: cs)).text) := by
  have htake : (c :: cs).takeWhile isWordPart = c :: cs.takeWhile isWordPart :=
    List.takeWhile_cons_of_pos hc
  have hsplit : Stands source start ((c :: cs.takeWhile isWordPart) ++ cs.dropWhile isWordPart) :=
    by
    rwa [List.cons_append, List.takeWhile_append_dropWhile]
  unfold scanWord Lexeme.word
  rw [skipWord_eq h.step, ← Position.advance_cons, htake]
  simp only [hsplit.textFrom, hsplit.make]
  cases Keyword.ofText? (String.ofList (c :: cs.takeWhile isWordPart)) <;> rfl

end Words

section Strings

open Lexeme (isQuote)

variable {quote : Char} {cs : List Char} {start : Position}

theorem scanString_eq (h : Stands source start (quote :: cs)) (hquote : isQuote quote = true) :
    scanString source quote.toUInt8 start (start.step quote) =
      (Token.ofLexeme ⟨.string (String.ofList (Lexeme.takeString quote cs).2),
        quote :: (Lexeme.takeString quote cs).1⟩ start,
        start.advance (quote :: (Lexeme.takeString quote cs).1)) := by
  obtain ⟨tail, htail⟩ := Lexeme.takeString_isPrefix quote cs
  have hsplit : Stands source start ((quote :: (Lexeme.takeString quote cs).1) ++ tail) := by
    rwa [List.cons_append, htail]
  have hbytes := takeString_eq quote.toUInt8 #[] h.step
  rw [Lexeme.takeStringBytes_utf8 hquote, Position.overBytes_utf8, ← Position.advance_cons]
    at hbytes
  unfold scanString Token.ofLexeme
  rw [hbytes]
  simp only [Array.empty_append, List.toList_toArray, lossy_utf8, hsplit.make]

end Strings

section Numbers

open Lexeme (takeFraction takeDecimal)
open Numeric (isDigit isRadixDigit takeExponent)

variable {c : Char} {cs : List Char}

theorem lt_of_le_of_ascii {d : Char} (hd : d.toNat < 128) (h : c ≤ d) : c.toNat < 128 :=
  Nat.lt_of_le_of_lt (UInt32.le_iff_toNat_le.1 h) hd

theorem isAscii_isDigit : IsAscii isDigit := by
  intro c hc
  have hnine : ¬c ≤ '9' := fun h => hc (lt_of_le_of_ascii (by decide) h)
  simp [isDigit, hnine]

theorem isAscii_isRadixDigit (radix : Nat) : IsAscii (isRadixDigit radix) := by
  intro c hc
  have hne {d : Char} (hd : d.toNat < 128) : ¬c ≤ d := fun h => hc (lt_of_le_of_ascii hd h)
  simp [isRadixDigit, Numeric.radixDigit?, Numeric.digitRank?, hne (d := '9') (by decide),
    hne (d := 'z') (by decide), hne (d := 'Z') (by decide)]

theorem isAscii_eq {d : Char} (hd : d.toNat < 128) : IsAscii fun c => decide (c = d) := by
  intro c hc
  apply decide_eq_false
  rintro rfl
  exact hc hd

theorem isAscii_or {p q : Char → Bool} (hp : IsAscii p) (hq : IsAscii q) :
    IsAscii fun c => p c || q c := by
  intro c hc
  simp only [hp c hc, hq c hc, Bool.or_false]

theorem IsAscii.sees_zero {test : Char → Bool} (h : IsAscii test) (hstands : Stands source p cs) :
    sees source test 0 p = cs.head?.any test :=
  h.peek hstands

theorem Stands.sees_succ (h : Stands source p (c :: cs)) (hc : c.toNat < 128) (test : Char → Bool)
    (k : Nat) : sees source test (k + 1) p = sees source test k (p.step c) := by
  unfold sees
  rw [h.peekAt_succ hc]

theorem Stands.drop {taken : List Char} (h : Stands source p cs) (htaken : taken <+: cs) :
    Stands source (p.advance taken) (cs.drop taken.length) := by
  obtain ⟨tail, rfl⟩ := htaken
  rw [List.drop_left]
  exact h.advance

theorem isEmpty_takeWhile (test : Char → Bool) (cs : List Char) :
    (cs.takeWhile test).isEmpty = !cs.head?.any test := by
  cases cs with
  | nil => rfl
  | cons c cs => cases h : test c <;> simp [h]

theorem skipDigits_eq (h : Stands source p cs) :
    skipDigits source p = p.advance (cs.takeWhile isDigit) :=
  isAscii_isDigit.skipWhile h

theorem skipFraction_eq (h : Stands source p cs) :
    skipFraction source p = p.advance (takeFraction cs) := by
  have hpoint := (isAscii_eq (d := '.') (by decide)).sees_zero h
  unfold skipFraction
  rw [hpoint]
  match cs with
  | [] => rfl
  | c :: cs =>
    by_cases hc : c = '.'
    · subst hc
      rw [h.sees_succ (by decide), isAscii_isDigit.sees_zero h.step, Lexeme.takeFraction_point,
        isEmpty_takeWhile, h.advance_ascii (by decide), skipDigits_eq h.step]
      cases cs.head?.any isDigit <;> rfl
    · rw [Lexeme.takeFraction_of_ne hc]
      simp [hc]

theorem Stands.skip_ascii {as tail : List Char} (h : Stands source p (as ++ tail))
    (hall : ∀ c ∈ as, c.toNat < 128) : Scanner.skip source as.length p = p.advance as := by
  induction as generalizing p with
  | nil => rfl
  | cons c as ih =>
    rw [List.length_cons, Scanner.skip, Stands.advance_ascii h (hall c List.mem_cons_self),
      ih (Stands.step h) fun d hd => hall d (List.mem_cons_of_mem c hd), Position.advance_cons]

theorem Stands.sees_length {as tail : List Char} {test : Char → Bool} (htest : IsAscii test)
    (h : Stands source p (as ++ tail)) (hall : ∀ c ∈ as, c.toNat < 128) :
    sees source test as.length p = tail.head?.any test := by
  induction as generalizing p with
  | nil => exact htest.sees_zero h
  | cons c as ih =>
    rw [List.length_cons, Stands.sees_succ h (hall c List.mem_cons_self),
      ih (Stands.step h) fun d hd => hall d (List.mem_cons_of_mem c hd)]

theorem skipExponent_mark {e : Char} (sign : List Char) {tail : List Char}
    (h : Stands source p ((e :: sign) ++ tail)) (he : e = 'e' ∨ e = 'E')
    (hsign : ∀ c ∈ sign, c = '+' ∨ c = '-') :
    (if sees source isDigit (e :: sign).length p then
      skipDigits source (Scanner.skip source (e :: sign).length p) else p) =
        p.advance (takeExponent.mark e sign tail) := by
  have hall : ∀ c ∈ e :: sign, c.toNat < 128 := by
    intro c hc
    rcases List.mem_cons.1 hc with rfl | hc
    · rcases he with rfl | rfl <;> decide
    · rcases hsign c hc with rfl | rfl <;> decide
  rw [h.sees_length isAscii_isDigit hall, h.skip_ascii hall, skipDigits_eq h.advance,
    ← Position.advance_append]
  unfold takeExponent.mark
  dsimp only
  rw [isEmpty_takeWhile]
  cases tail.head?.any isDigit <;> simp [he]

theorem skipExponent_eq (h : Stands source p cs) :
    skipExponent source p = p.advance (takeExponent cs) := by
  have hmark : IsAscii fun c => decide (c = 'e') || decide (c = 'E') :=
    isAscii_or (isAscii_eq (by decide)) (isAscii_eq (by decide))
  have hsign : IsAscii fun c => decide (c = '+') || decide (c = '-') :=
    isAscii_or (isAscii_eq (by decide)) (isAscii_eq (by decide))
  unfold skipExponent
  rw [hmark.sees_zero h]
  match cs with
  | [] => rfl
  | e :: cs =>
    by_cases he : e = 'e' ∨ e = 'E'
    · have hascii : e.toNat < 128 := by rcases he with rfl | rfl <;> decide
      have hhead : ((e :: cs).head?.any fun c => decide (c = 'e') || decide (c = 'E')) = true := by
        simpa using he
      rw [if_pos hhead, h.sees_succ hascii, hsign.sees_zero h.step]
      match cs with
      | [] => exact skipExponent_mark [] h he nofun
      | c :: cs =>
        by_cases hc : c = '+' ∨ c = '-'
        · have hplus : ((c :: cs).head?.any fun c => decide (c = '+') || decide (c = '-')) = true :=
            by
            simpa using hc
          rw [hplus, Lexeme.takeExponent_sign hc]
          exact skipExponent_mark [c] h he fun d hd => List.mem_singleton.1 hd ▸ hc
        · have hnone : ((c :: cs).head?.any fun c => decide (c = '+') || decide (c = '-')) =
            false := by
            simpa using hc
          rw [hnone, Lexeme.takeExponent_of_ne hc]
          exact skipExponent_mark [] h he nofun
    · obtain ⟨s, r, -, hnone⟩ := Lexeme.takeExponent_cases e cs
      rw [hnone, Lexeme.mark_of_ne (fun h => he (.inl h)) (fun h => he (.inr h))]
      simp [not_or.1 he]

theorem skipDecimal_eq (h : Stands source p (c :: cs)) (hc : isDigit c = true) :
    skipExponent source (skipFraction source (skipDigits source (p.step c))) =
      p.advance (takeDecimal (c :: cs)) := by
  have hwhole : (c :: cs).takeWhile isDigit = c :: cs.takeWhile isDigit :=
    List.takeWhile_cons_of_pos hc
  have hfirst := h.drop (List.takeWhile_prefix isDigit)
  have hsecond := hfirst.drop (Lexeme.takes_fraction.isPrefix _)
  rw [← Position.advance_append, List.drop_drop, ← List.length_append] at hsecond
  rw [skipDigits_eq h.step, ← Position.advance_cons, ← hwhole, skipFraction_eq hfirst,
    ← Position.advance_append, skipExponent_eq hsecond, ← Position.advance_append]
  rfl

theorem radixForm?_toUInt8 {mark : Char} (hmark : mark.toNat < 128) :
    radixForm? mark.toUInt8 =
      (Numeric.radixOfMark? mark).map fun radix => (radix, NumberForm.ofRadix radix) := by
  unfold radixForm?
  rw [ofUInt8_toUInt8 hmark]
  split
  case h_7 hx hX ho hO hb hB =>
    have hnone : Numeric.radixOfMark? mark = none := by
      unfold Numeric.radixOfMark?
      rw [if_neg (not_or.2 ⟨hx, hX⟩), if_neg (not_or.2 ⟨ho, hO⟩), if_neg (not_or.2 ⟨hb, hB⟩)]
    rw [hnone]
    rfl
  all_goals rfl

theorem radixForm?_of_wide {b : UInt8} (hb : 128 ≤ b) : radixForm? b = none := by
  revert b
  apply byte_cases
  decide +kernel

def located (start : Position) : Except Lexeme.Refusal Lexeme → Except Fault (Token × Position)
  | .error refusal => .error (Token.ofRefusal refusal start)
  | .ok lexeme => .ok (Token.ofLexeme lexeme start, start.advance lexeme.text)

theorem offset_advance_eq_iff (p : Position) (cs : List Char) :
    (p.advance cs).offset = p.offset ↔ cs = [] := by
  cases cs with
  | nil => exact iff_of_true rfl rfl
  | cons c cs =>
    rw [← Position.overBytes_utf8, Position.offset_overBytes, utf8_cons, List.length_append,
      String.length_utf8EncodeChar]
    have := c.utf8Size_pos
    exact iff_of_false (by omega) nofun

theorem radixOfMark?_of_wide {mark : Char} (h : ¬mark.toNat < 128) :
    Numeric.radixOfMark? mark = none := by
  have hne {d : Char} (hd : d.toNat < 128) : mark ≠ d := by
    rintro rfl
    exact h hd
  simp [Numeric.radixOfMark?, hne (d := 'x') (by decide), hne (d := 'X') (by decide),
    hne (d := 'o') (by decide), hne (d := 'O') (by decide), hne (d := 'b') (by decide),
    hne (d := 'B') (by decide)]

theorem radixForm?_peek (h : Stands source p (c :: cs)) (hc : isDigit c = true) :
    (if c.toUInt8 = '0'.toUInt8 then (Scanner.peek source (p.step c)).bind radixForm? else none) =
      if c = '0' then (cs.head?.bind Numeric.radixOfMark?).map fun radix =>
        (radix, NumberForm.ofRadix radix) else none := by
  have hascii : c.toNat < 128 := by
    by_contra hwide
    rw [isAscii_isDigit c hwide] at hc
    cases hc
  by_cases hzero : c = '0'
  · subst hzero
    rw [if_pos rfl, if_pos rfl]
    match cs with
    | [] =>
      rw [peek_of_nil h.step]
      rfl
    | mark :: cs =>
      by_cases hmark : mark.toNat < 128
      · rw [peek_of_rest (h.step.ascii hmark)]
        exact radixForm?_toUInt8 hmark
      · obtain ⟨b, bs, -, hb, hrest⟩ := h.step.wide hmark
        rw [peek_of_rest hrest, Option.bind_some, radixForm?_of_wide hb, List.head?_cons,
          Option.bind_some, radixOfMark?_of_wide hmark]
        rfl
  · rw [if_neg hzero, if_neg fun heq => hzero (toUInt8_inj hascii (by decide) heq)]

theorem scanNumber_radix {start : Position} {mark : Char} {tail : List Char} {radix : Nat}
    (h : Stands source start ('0' :: mark :: tail))
    (hradix : Numeric.radixOfMark? mark = some radix) :
    scanNumber source '0'.toUInt8 start (start.step '0') =
      located start (Lexeme.number ('0' :: mark :: tail)) := by
  have hascii : mark.toNat < 128 := by
    by_contra hwide
    rw [radixOfMark?_of_wide hwide] at hradix
    cases hradix
  have hdigits := h.step.step
  have hsplit : Stands source start (('0' :: mark :: tail.takeWhile (isRadixDigit radix)) ++
      tail.dropWhile (isRadixDigit radix)) := by
    rwa [List.cons_append, List.cons_append, List.takeWhile_append_dropWhile]
  unfold scanNumber
  rw [radixForm?_peek h rfl, if_pos rfl, List.head?_cons, Option.bind_some, hradix,
    Option.map_some, Lexeme.number_radix hradix]
  dsimp only
  rw [h.step.advance_ascii hascii, (isAscii_isRadixDigit radix).skipWhile hdigits]
  by_cases hempty : tail.takeWhile (isRadixDigit radix) = [] ∧ radix = 16
  · rw [if_pos ⟨(offset_advance_eq_iff _ _).2 hempty.1, hempty.2⟩,
      if_pos ⟨List.isEmpty_iff.2 hempty.1, hempty.2⟩]
    rw [hempty.1] at hsplit ⊢
    exact congrArg Except.error (hsplit.fault .emptyHexadecimal)
  · rw [if_neg fun hstop => hempty ⟨(offset_advance_eq_iff _ _).1 hstop.1, hstop.2⟩,
      if_neg fun hstop => hempty ⟨List.isEmpty_iff.1 hstop.1, hstop.2⟩]
    exact congrArg (fun token => Except.ok (token, _)) (hsplit.make _)

theorem scanNumber_decimal {start : Position} (h : Stands source start (c :: cs))
    (hc : isDigit c = true)
    (hmark : ∀ mark tail, c :: cs = '0' :: mark :: tail → Numeric.radixOfMark? mark = none) :
    scanNumber source c.toUInt8 start (start.step c) = located start (Lexeme.number (c :: cs)) := by
  have hnone : (if c = '0' then (cs.head?.bind Numeric.radixOfMark?).map fun radix =>
      (radix, NumberForm.ofRadix radix) else none) = none := by
    split
    next hzero =>
      match cs with
      | [] => rfl
      | mark :: tail =>
        rw [List.head?_cons, Option.bind_some, hmark mark tail (by rw [hzero])]
        rfl
    next => rfl
  obtain ⟨tail, htail⟩ := Lexeme.takes_decimal.isPrefix (c :: cs)
  have hsplit : Stands source start (takeDecimal (c :: cs) ++ tail) := by rwa [htail]
  unfold scanNumber
  rw [radixForm?_peek h hc, hnone, Lexeme.number_decimal hmark]
  dsimp only
  rw [skipDecimal_eq h hc, hsplit.make]
  rfl

theorem scanNumber_eq {start : Position} (h : Stands source start (c :: cs))
    (hc : isDigit c = true) :
    scanNumber source c.toUInt8 start (start.step c) = located start (Lexeme.number (c :: cs)) := by
  by_cases hmark : ∃ mark tail radix, c :: cs = '0' :: mark :: tail ∧
      Numeric.radixOfMark? mark = some radix
  · obtain ⟨mark, tail, radix, hcs, hradix⟩ := hmark
    cases hcs
    exact scanNumber_radix h hradix
  · refine scanNumber_decimal h hc fun mark tail hcs => ?_
    cases hradix : Numeric.radixOfMark? mark with
    | none => rfl
    | some radix => exact absurd ⟨mark, tail, radix, hcs, hradix⟩ hmark

end Numbers

section Symbols

variable {c : Char} {cs : List Char}

theorem eat_eq (h : Stands source p cs) {expected : Char} (hexpected : expected.toNat < 128) :
    eat source expected p =
      if [expected].isPrefixOf cs then (true, p.step expected) else (false, p) := by
  unfold eat
  match cs with
  | [] => rw [if_neg fun heq => nomatch (h.peek_eq_iff hexpected).1 heq]; rfl
  | c :: cs =>
    by_cases hc : c = expected
    · subst hc
      rw [if_pos ((h.peek_eq_iff hexpected).2 rfl), h.advance_ascii hexpected]
      simp
    · rw [if_neg fun heq => hc (Option.some.inj ((h.peek_eq_iff hexpected).1 heq))]
      simp [Ne.symm hc]

theorem eat_bind {α : Type} (h : Stands source p cs) {expected : Char}
    (hexpected : expected.toNat < 128) (yes no : StateM Position α) :
    (do if ← eat source expected then yes else no) p =
      if [expected].isPrefixOf cs then yes (p.step expected) else no p := by
  change (if (eat source expected p).1 then yes else no) (eat source expected p).2 = _
  rw [eat_eq h hexpected]
  split <;> rfl

end Symbols

end Scanner

namespace Symbol

/-- Only the symbols that begin with the first character count. -/
theorem longest?_cons (c : Char) (cs : List Char) : longest? (c :: cs) =
    (all.filter fun s => s.chars.head? = some c).find? fun s => s.chars.tail.isPrefixOf cs := by
  unfold longest?
  rw [List.find?_filter]
  congr 1
  funext s
  cases hs : s.chars with
  | nil => exact absurd hs (Lexeme.chars_ne_nil s)
  | cons b bs =>
    rw [Bool.eq_iff_iff]
    simp [List.isPrefixOf]

def firsts : List Char :=
  ['+', '-', '*', '/', '%', '?', '=', '!', '<', '>', '&', '|', '^', '~', '(', ')', '\x7b', '\x7d',
    '[', ']', ';', ',', '.', ':']

theorem exists_first {s : Symbol} (hs : s ∈ all) : ∃ b ∈ firsts, s.chars.head? = some b := by
  have hfirst : (all.all fun s => firsts.any fun b => s.chars.head? = some b) = true := by decide
  simpa using List.all_eq_true.mp hfirst s hs

theorem filter_of_not_mem {c : Char} (hc : c ∉ firsts) :
    (all.filter fun s => s.chars.head? = some c) = [] := by
  rw [List.filter_eq_nil_iff]
  intro s hs hhead
  obtain ⟨b, hb, hsome⟩ := exists_first hs
  rw [hsome, decide_eq_true_iff, Option.some.injEq] at hhead
  exact hc (hhead ▸ hb)

theorem longest?_of_wide {c : Char} (hc : ¬c.toNat < 128) (cs : List Char) :
    longest? (c :: cs) = none := by
  have hascii : (firsts.all fun b => b.toNat < 128) = true := by decide
  have hfirst : c ∉ firsts := fun hmem => hc (by simpa using List.all_eq_true.mp hascii c hmem)
  rw [longest?_cons, filter_of_not_mem hfirst]
  rfl

def chosen (marks : List Symbol) (cs : List Char) (p : Position) : Option Symbol × Position :=
  match marks.find? fun s => s.chars.tail.isPrefixOf cs with
  | some mark => (some mark, p.advance mark.chars.tail)
  | none => (none, p)

end Symbol

namespace Scanner

section Symbols

open ScriptEngine.Symbol (chosen)

variable {c d e : Char} {cs : List Char} {mark short : Symbol} {marks : List Symbol}

theorem chosen_single (hmark : mark.chars.tail = []) :
    (pure (some mark) : StateM Position (Option Symbol)) p = chosen (mark :: marks) cs p := by
  unfold chosen
  rw [List.find?_cons_of_pos (by rw [hmark]; rfl)]
  simp only [hmark]
  rfl

theorem chosen_eat (h : Stands source p cs) (hd : d.toNat < 128) (hmark : mark.chars.tail = [d])
    {no : StateM Position (Option Symbol)} (hno : no p = chosen marks cs p) :
    (do if ← eat source d then return some mark else no) p = chosen (mark :: marks) cs p := by
  rw [eat_bind h hd]
  unfold chosen
  split
  next hnext =>
    rw [List.find?_cons_of_pos (by rw [hmark]; exact hnext)]
    simp only [hmark]
    rfl
  next hnext =>
    rw [List.find?_cons_of_neg (by rw [hmark]; exact hnext)]
    exact hno

theorem chosen_eat_eat (h : Stands source p cs) (hd : d.toNat < 128) (he : e.toNat < 128)
    (hmark : mark.chars.tail = [d, e]) (hshort : short.chars.tail = [d])
    {no : StateM Position (Option Symbol)} (hno : no p = chosen marks cs p) :
    (do
      if ← eat source d then
        if ← eat source e then return some mark else return some short
      else no) p = chosen (mark :: short :: marks) cs p := by
  rw [eat_bind h hd]
  unfold chosen
  match cs with
  | [] =>
    rw [if_neg (by simp), List.find?_cons_of_neg (by simp [hmark]),
      List.find?_cons_of_neg (by simp [hshort])]
    exact hno
  | c :: cs =>
    by_cases hc : d = c
    · subst hc
      rw [if_pos (by simp), eat_bind h.step he]
      split
      next hnext =>
        rw [List.find?_cons_of_pos (by simpa [hmark] using hnext)]
        simp only [hmark]
        rfl
      next hnext =>
        rw [List.find?_cons_of_neg (by simpa [hmark] using hnext),
          List.find?_cons_of_pos (by simp [hshort])]
        simp only [hshort]
        rfl
    · rw [if_neg (by simp [hc]), List.find?_cons_of_neg (by simp [hmark, hc]),
        List.find?_cons_of_neg (by simp [hshort, hc])]
      exact hno

theorem symbol?_eq (h : Stands source p cs) (hc : c.toNat < 128) :
    symbol? source c.toUInt8 p =
      match Symbol.longest? (c :: cs) with
      | some mark => (some mark, p.advance mark.chars.tail)
      | none => (none, p) := by
  rw [Symbol.longest?_cons]
  change _ = chosen _ cs p
  unfold symbol?
  rw [ofUInt8_toUInt8 hc]
  split
  case h_25 =>
    rw [Symbol.filter_of_not_mem (by simp_all [Symbol.firsts])]
    rfl
  all_goals first
    | exact chosen_single rfl
    | exact chosen_eat h (by decide) rfl (chosen_single rfl)
    | exact chosen_eat h (by decide) rfl (chosen_eat h (by decide) rfl (chosen_single rfl))
    | exact chosen_eat_eat h (by decide) (by decide) rfl rfl (chosen_single rfl)
    | exact chosen_eat_eat h (by decide) (by decide) rfl rfl
        (chosen_eat h (by decide) rfl (chosen_single rfl))

end Symbols

section Tokens

open Lexeme (splitGap isQuote isWordStart isWordPart)
open Numeric (isDigit)

variable {c : Char} {cs : List Char} {start : Position}

theorem isAscii_isQuote : IsAscii isQuote :=
  isAscii_or (isAscii_eq (by decide)) (isAscii_eq (by decide))

theorem scanToken_of_gap {gap : List Char} (h : Stands source p cs)
    (hsplit : splitGap .blank cs = (gap, [])) :
    scanToken source p = .ok (Token.atEnd (p.advance gap), p.advance gap) := by
  have happend := Lexeme.splitGap_append .blank cs
  have hgap := skipGap_eq h
  rw [hsplit] at happend hgap
  have hend : Stands source (p.advance gap) [] := by
    apply Stands.advance
    rwa [happend]
  unfold scanToken
  rw [hgap]
  dsimp only
  rw [peek_of_nil hend]

theorem scanSymbol_eq (h : Stands source start (c :: cs)) (hc : c.toNat < 128)
    (hquote : isQuote c ≠ true) (hdigit : isDigit c ≠ true) (hword : isWordStart c ≠ true) :
    (match symbol? source c.toUInt8 (start.step c) with
      | (some mark, stop) => .ok (make source (.symbol mark) start stop, stop)
      | (none, stop) => .error (fault source (.unexpectedCharacter c) start stop)) =
        located start (Lexeme.next c cs) := by
  unfold Lexeme.next
  rw [symbol?_eq h.step hc, if_neg hquote, if_neg hdigit, if_neg hword]
  cases hs : Symbol.longest? (c :: cs) with
  | none => exact congrArg Except.error (h.fault_first _)
  | some mark =>
    obtain ⟨tail, htail⟩ := List.isPrefixOf_iff_prefix.1 (Symbol.isPrefixOf_of_longest? hs)
    obtain ⟨b, bs, hchars⟩ := List.exists_cons_of_ne_nil (Lexeme.chars_ne_nil mark)
    rw [hchars] at htail
    obtain rfl : b = c := (List.cons.inj htail).1
    have hsplit : Stands source start (mark.chars ++ tail) := by rwa [hchars, htail]
    have hstop : (start.step b).advance mark.chars.tail = start.advance mark.chars := by
      rw [hchars]
      rfl
    dsimp only
    rw [hstop, hsplit.make]
    rfl

theorem scanFirst_ascii (h : Stands source start (c :: cs)) (hc : c.toNat < 128) :
    scanFirst source c.toUInt8 start = located start (Lexeme.next c cs) := by
  have hstart : isWordStart c = (c.isAlpha || c = '_' || c = '$') := if_pos hc
  have hwide : ¬(0x80 : UInt8) ≤ c.toUInt8 := by
    rw [UInt8.le_iff_toNat_le, toNat_toUInt8, Nat.mod_eq_of_lt (by omega)]
    exact Nat.not_le.2 hc
  unfold scanFirst
  dsimp only
  rw [ofUInt8_toUInt8 hc, h.advance_ascii hc, ← hstart]
  by_cases hquote : isQuote c = true
  · rw [if_pos hquote, scanString_eq h hquote]
    unfold Lexeme.next
    rw [if_pos hquote]
    rfl
  by_cases hdigit : isDigit c = true
  · rw [if_neg hquote, if_pos hdigit, scanNumber_eq h hdigit]
    unfold Lexeme.next
    rw [if_neg hquote, if_pos hdigit]
  by_cases hword : isWordStart c = true
  · rw [if_neg hquote, if_neg hdigit, if_pos hword,
      scanWord_eq h (Lexeme.isWordPart_of_isWordStart hword)]
    unfold Lexeme.next
    rw [if_neg hquote, if_neg hdigit, if_pos hword]
    rfl
  · rw [if_neg hquote, if_neg hdigit, if_neg hword, if_neg hwide]
    exact scanSymbol_eq h hc hquote hdigit hword

theorem isAlpha_of_wide {b : UInt8} (hb : 128 ≤ b) :
    ((Char.ofUInt8 b).isAlpha || Char.ofUInt8 b = '_' || Char.ofUInt8 b = '$') = false := by
  revert b
  apply byte_cases
  decide +kernel

theorem scanFirst_wide (h : Stands source start (c :: cs)) (hc : ¬c.toNat < 128) {b : UInt8}
    (hb : 128 ≤ b) :
    scanFirst source b start = located start (Lexeme.next c cs) := by
  have hstart : isWordStart c = isLetter c := if_neg hc
  have hskip : Scanner.skip source (c.utf8Size - 1) (Scanner.advance source start) =
      start.step c := by
    obtain ⟨n, hn⟩ := Nat.exists_eq_succ_of_ne_zero (Nat.ne_of_gt c.utf8Size_pos)
    have hall := h.skip
    rw [hn] at hall ⊢
    exact hall
  have hquote : isQuote c ≠ true := by simp [isAscii_isQuote c hc]
  have hdigit : isDigit c ≠ true := by simp [isAscii_isDigit c hc]
  unfold scanFirst Lexeme.next
  dsimp only
  rw [isAscii_isQuote.of_wide hb, isAscii_isDigit.of_wide hb, isAlpha_of_wide hb, h.charAt,
    Option.getD_some, hskip, if_neg hquote, if_neg hdigit, hstart, if_pos hb]
  simp only [Bool.false_eq_true, if_false]
  split
  next hletter =>
    rw [scanWord_eq h (Lexeme.isWordPart_of_isWordStart (hstart.trans hletter))]
    rfl
  next =>
    rw [Symbol.longest?_of_wide hc]
    exact congrArg Except.error (h.fault_first _)

theorem scanToken_of_next {gap : List Char} (h : Stands source p cs) {t : List Char}
    (hsplit : splitGap .blank cs = (gap, c :: t)) :
    scanToken source p = located (p.advance gap) (Lexeme.next c t) := by
  have happend := Lexeme.splitGap_append .blank cs
  have hgap := skipGap_eq h
  rw [hsplit] at happend hgap
  have hstart : Stands source (p.advance gap) (c :: t) := by
    apply Stands.advance
    rwa [happend]
  unfold scanToken
  rw [hgap]
  dsimp only
  by_cases hc : c.toNat < 128
  · rw [peek_of_rest (hstart.ascii hc)]
    exact scanFirst_ascii hstart hc
  · obtain ⟨b, bs, -, hb, hrest⟩ := hstart.wide hc
    rw [peek_of_rest hrest]
    exact scanFirst_wide hstart hc hb

theorem scanTokens_step (p : Position) : scanTokens source p =
    match scanToken source p with
    | .error fault => .error fault
    | .ok (token, q) =>
      if token.kind = .endOfInput then .ok [token]
      else
        match scanTokens source q with
        | .error fault => .error fault
        | .ok tokens => .ok (token :: tokens) := by
  rw [scanTokens]
  split
  next heq => rw [heq]
  next heq =>
    rewrite [heq]
    rfl

theorem scanTokens_of_next {gap : List Char} {lexeme : Lexeme} (h : Stands source p cs)
    {t : List Char}
    (hsplit : splitGap .blank cs = (gap, c :: t)) (hnext : Lexeme.next c t = .ok lexeme) :
    scanTokens source p =
      match scanTokens source ((p.advance gap).advance lexeme.text) with
      | .error fault => .error fault
      | .ok tokens => .ok (Token.ofLexeme lexeme (p.advance gap) :: tokens) := by
  rw [scanTokens_step, scanToken_of_next h hsplit, hnext]
  exact if_neg (Lexeme.kind_of_next hnext).1

theorem Stands.behind {gap : List Char} {lexeme : Lexeme} (h : Stands source p cs) {t : List Char}
    (hsplit : splitGap .blank cs = (gap, c :: t)) (hnext : Lexeme.next c t = .ok lexeme) :
    Stands source ((p.advance gap).advance lexeme.text) (t.drop (lexeme.text.length - 1)) := by
  obtain ⟨u, r, htext, rfl⟩ := Lexeme.next_isPrefix hnext
  have happend := Lexeme.splitGap_append .blank cs
  rw [hsplit] at happend
  rw [htext, List.length_cons, Nat.add_sub_cancel, List.drop_left]
  apply Stands.advance
  apply Stands.advance
  rwa [List.cons_append, happend]

/-- Byte by byte the scanner finds the tokens that are found by characters. -/
theorem scanTokens_eq_scanFrom (h : Stands source p cs) :
    scanTokens source p = Token.scanFrom p cs := by
  fun_induction Token.scanFrom p cs with
  | case1 p cs hsplit =>
    rw [scanTokens_step, scanToken_of_gap h (Prod.ext rfl hsplit)]
    rfl
  | case2 p cs c rest hsplit start refusal hnext =>
    rw [scanTokens_step, scanToken_of_next h (Prod.ext rfl hsplit), hnext]
    rfl
  | case3 p cs c rest hsplit start lexeme hnext fault hfault ih =>
    have hpair : splitGap .blank cs = (_, c :: rest) := Prod.ext rfl hsplit
    rw [scanTokens_of_next h hpair hnext, ih (h.behind hpair hnext), hfault]
  | case4 p cs c rest hsplit start lexeme hnext tokens htokens ih =>
    have hpair : splitGap .blank cs = (_, c :: rest) := Prod.ext rfl hsplit
    rw [scanTokens_of_next h hpair hnext, ih (h.behind hpair hnext), htokens]

end Tokens

end Scanner

namespace Token

theorem scan_eq_scanFrom (text : String) : scan text = scanFrom Position.first text.toList :=
  Scanner.scanTokens_eq_scanFrom (Scanner.stands_first text)

theorem scanFrom_of_scan {text : String} {r : Except Fault (List Token)} (h : scan text = r) :
    scanFrom Position.first text.toList = r :=
  (scan_eq_scanFrom text).symm.trans h

end Token

end ScriptEngine
