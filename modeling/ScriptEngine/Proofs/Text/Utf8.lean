import ScriptEngine.Text.Span
import ScriptEngine.Text.Utf8

/-!
# Characters and their bytes

The bytes of a wide character are no ASCII characters, and the text of the bytes of a text is that
text again. A place that is moved over the bytes of a character comes where the character ends, one
column further.
-/

namespace ScriptEngine

namespace Text

theorem byte_cases {P : UInt8 → Prop} (h : ∀ n < 256, P (UInt8.ofNat n)) (b : UInt8) : P b := by
  have hb := h b.toNat b.toNat_lt
  rwa [UInt8.ofNat_toNat] at hb

theorem toNat_toUInt8 (c : Char) : c.toUInt8.toNat = c.toNat % 256 :=
  UInt32.toNat_toUInt8 c.val

theorem toUInt8_inj {c d : Char} (hc : c.toNat < 128) (hd : d.toNat < 128)
    (h : c.toUInt8 = d.toUInt8) : c = d := by
  have hnat := congrArg UInt8.toNat h
  rw [toNat_toUInt8, toNat_toUInt8] at hnat
  exact Char.ext (UInt32.toNat_inj.mp (by
    change c.toNat = d.toNat
    omega))

@[simp] theorem utf8_nil : utf8 [] = [] := rfl

@[simp] theorem utf8_cons (c : Char) (cs : List Char) :
    utf8 (c :: cs) = String.utf8EncodeChar c ++ utf8 cs := rfl

theorem utf8_append (as bs : List Char) : utf8 (as ++ bs) = utf8 as ++ utf8 bs :=
  List.flatMap_append

theorem utf8EncodeChar_ne_nil (c : Char) : String.utf8EncodeChar c ≠ [] := by
  intro hnil
  have hlength := String.length_utf8EncodeChar c
  rw [hnil] at hlength
  exact absurd c.utf8Size_pos (by simp [← hlength])

theorem lossy_utf8 (cs : List Char) : lossy (utf8 cs) = cs := by
  induction cs with
  | nil => rw [utf8_nil, lossy]
  | cons c cs ih =>
    have hlength := String.length_utf8EncodeChar c
    have hfour := c.utf8Size_le_four
    -- the first four bytes hold the whole character
    have hhead : ((String.utf8EncodeChar c ++ utf8 cs).take 4).toByteArray.utf8DecodeChar? 0 =
        some c := by
      rw [List.take_append, List.take_of_length_le (by omega), List.toByteArray_append]
      exact ByteArray.utf8DecodeChar?_utf8EncodeChar_append
    rw [utf8_cons]
    cases hbytes : String.utf8EncodeChar c with
    | nil => exact absurd hbytes (utf8EncodeChar_ne_nil c)
    | cons b bs =>
      rw [hbytes] at hhead hlength
      have hdrop : (bs ++ utf8 cs).drop (c.utf8Size - 1) = utf8 cs := by simp [← hlength]
      rw [List.cons_append, List.take_succ_cons] at hhead
      rw [List.cons_append, lossy, hhead]
      simp only [hdrop, ih]

example : lossy [0x61, 0xC3, 0x28, 0xF0, 0x9F, 0x98, 0xC3, 0xA9] =
    ['a', '\uFFFD', '(', '\uFFFD', 'é'] := by
  decide +kernel

theorem utf8EncodeChar_of_lt {c : Char} (hc : c.toNat < 128) :
    String.utf8EncodeChar c = [c.toUInt8] := by
  refine String.utf8EncodeChar_eq_singleton (Char.utf8Size_eq_one_iff.mpr ?_)
  exact UInt32.le_iff_toNat_le.mpr (Nat.le_of_lt_succ hc)

theorem le_of_mem_utf8EncodeChar {c : Char} (hc : ¬c.toNat < 128) {b : UInt8}
    (hb : b ∈ String.utf8EncodeChar c) : 128 ≤ b := by
  have hmark (x m : UInt8) (hm : 128 ≤ m) : 128 ≤ x ||| m := by
    rw [UInt8.le_iff_toNat_le, UInt8.toNat_or]
    exact Nat.le_trans (UInt8.le_iff_toNat_le.mp hm) Nat.right_le_or
  rcases c.utf8Size_eq with h | h | h | h
  · exact absurd (UInt32.le_iff_toNat_le.mp (Char.utf8Size_eq_one_iff.mp h)) (by
      intro hle
      exact hc (Nat.lt_succ_of_le hle))
  · rw [String.utf8EncodeChar_eq_cons_cons h] at hb
    simp only [List.mem_cons, List.not_mem_nil, or_false] at hb
    rcases hb with rfl | rfl <;> exact hmark _ _ (by decide)
  · rw [String.utf8EncodeChar_eq_cons_cons_cons h] at hb
    simp only [List.mem_cons, List.not_mem_nil, or_false] at hb
    rcases hb with rfl | rfl | rfl <;> exact hmark _ _ (by decide)
  · rw [String.utf8EncodeChar_eq_cons_cons_cons_cons h] at hb
    simp only [List.mem_cons, List.not_mem_nil, or_false] at hb
    rcases hb with rfl | rfl | rfl | rfl <;> exact hmark _ _ (by decide)

theorem toList_toByteArray (text : String) : text.toByteArray.data.toList = utf8 text.toList := by
  rw [← String.utf8Encode_toList, List.utf8Encode, List.data_toByteArray]
  rfl

end Text

namespace Text.Position

/-- The place after a run of bytes. -/
def overBytes (p : Position) (bs : List UInt8) : Position :=
  bs.foldl stepByte p

@[simp] theorem overBytes_nil (p : Position) : p.overBytes [] = p := rfl

@[simp] theorem overBytes_cons (p : Position) (b : UInt8) (bs : List UInt8) :
    p.overBytes (b :: bs) = (p.stepByte b).overBytes bs := rfl

theorem overBytes_append (p : Position) (as bs : List UInt8) :
    p.overBytes (as ++ bs) = (p.overBytes as).overBytes bs :=
  List.foldl_append

@[simp] theorem offset_overBytes (p : Position) (bs : List UInt8) :
    (p.overBytes bs).offset = p.offset + bs.length := by
  induction bs generalizing p with
  | nil => rfl
  | cons b bs ih =>
    rw [overBytes_cons, ih, offset_stepByte, List.length_cons]
    omega

theorem stepByte_lead (p : Position) {b : UInt8} (h : b ≠ 0x0A ∧ b &&& 0xC0 ≠ 0x80) :
    p.stepByte b = ⟨p.offset + 1, p.line, p.column + 1⟩ := by
  unfold stepByte
  rw [if_neg h.1, if_pos h.2]

theorem stepByte_continued (p : Position) {b : UInt8} (h : b ≠ 0x0A ∧ b &&& 0xC0 = 0x80) :
    p.stepByte b = ⟨p.offset + 1, p.line, p.column⟩ := by
  unfold stepByte
  rw [if_neg h.1, if_neg (not_not_intro h.2)]

theorem stepByte_toUInt8 (p : Position) {c : Char} (hc : c.toNat < 128) :
    p.stepByte c.toUInt8 = p.step c := by
  have hsize : c.utf8Size = 1 := by
    rw [← String.length_utf8EncodeChar, utf8EncodeChar_of_lt hc]
    rfl
  unfold step
  rw [hsize]
  split
  next hnewline =>
    subst hnewline
    rfl
  next hother =>
    apply stepByte_lead
    have hbytes : ∀ n < 128, n ≠ 10 → UInt8.ofNat n ≠ 0x0A ∧ UInt8.ofNat n &&& 0xC0 ≠ 0x80 := by
      decide +kernel
    have hne : c.toNat ≠ 10 := fun h => hother (Char.ext (UInt32.toNat_inj.mp h))
    exact hbytes c.toNat hc hne

/-- The first byte of a character begins a column, and the others do not. -/
theorem overBytes_utf8EncodeChar (p : Position) (c : Char) :
    p.overBytes (String.utf8EncodeChar c) = p.step c := by
  by_cases hc : c.toNat < 128
  · rw [utf8EncodeChar_of_lt hc]
    exact stepByte_toUInt8 p hc
  · have hstep : p.step c = ⟨p.offset + c.utf8Size, p.line, p.column + 1⟩ := by
      refine if_neg ?_
      rintro rfl
      exact hc (by decide)
    have hnext (x : UInt8) : x &&& 63 ||| 128 ≠ 0x0A ∧ (x &&& 63 ||| 128) &&& 0xC0 = 0x80 := by
      revert x
      apply byte_cases
      decide +kernel
    have htwo (x : UInt8) : x &&& 31 ||| 192 ≠ 0x0A ∧ (x &&& 31 ||| 192) &&& 0xC0 ≠ 0x80 := by
      revert x
      apply byte_cases
      decide +kernel
    have hthree (x : UInt8) : x &&& 15 ||| 224 ≠ 0x0A ∧ (x &&& 15 ||| 224) &&& 0xC0 ≠ 0x80 := by
      revert x
      apply byte_cases
      decide +kernel
    have hfour (x : UInt8) : x &&& 7 ||| 240 ≠ 0x0A ∧ (x &&& 7 ||| 240) &&& 0xC0 ≠ 0x80 := by
      revert x
      apply byte_cases
      decide +kernel
    rw [hstep]
    rcases c.utf8Size_eq with h | h | h | h
    · exact absurd (Nat.lt_succ_of_le
        (UInt32.le_iff_toNat_le.mp (Char.utf8Size_eq_one_iff.mp h))) hc
    · simp only [String.utf8EncodeChar_eq_cons_cons h, overBytes_cons, overBytes_nil,
        stepByte_lead _ (htwo _), stepByte_continued _ (hnext _), h]
    · simp only [String.utf8EncodeChar_eq_cons_cons_cons h, overBytes_cons, overBytes_nil,
        stepByte_lead _ (hthree _), stepByte_continued _ (hnext _), h]
    · simp only [String.utf8EncodeChar_eq_cons_cons_cons_cons h, overBytes_cons, overBytes_nil,
        stepByte_lead _ (hfour _), stepByte_continued _ (hnext _), h]

theorem overBytes_utf8 (p : Position) (cs : List Char) : p.overBytes (utf8 cs) = p.advance cs := by
  induction cs generalizing p with
  | nil => rfl
  | cons c cs ih => rw [utf8_cons, overBytes_append, overBytes_utf8EncodeChar, ih, advance_cons]

end Text.Position

end ScriptEngine
