/-!
# Texts as bytes

The bytes of a text, and the text of bytes that need not be one: each broken sequence becomes a
replacement character.
-/

namespace ScriptEngine.Text

def utf8 (cs : List Char) : List UInt8 :=
  cs.flatMap String.utf8EncodeChar

def isSecond (lead second : UInt8) : Bool :=
  if lead = 0xE0 then 0xA0 ≤ second && second ≤ 0xBF
  else if lead = 0xED then 0x80 ≤ second && second ≤ 0x9F
  else if lead = 0xF0 then 0x90 ≤ second && second ≤ 0xBF
  else if lead = 0xF4 then 0x80 ≤ second && second ≤ 0x8F
  else 0xE1 ≤ lead && lead ≤ 0xF3 && 0x80 ≤ second && second ≤ 0xBF

/-- The length of a broken sequence at the start of bytes: as far as a character could begin so. -/
def brokenLength : List UInt8 → Nat
  | a :: b :: c :: _ =>
    if isSecond a b then if 0xF0 ≤ a && 0x80 ≤ c && c ≤ 0xBF then 3 else 2 else 1
  | [a, b] => if isSecond a b then 2 else 1
  | _ => 1

/-- The text of bytes, with a replacement character for each broken sequence. A character has at
most four bytes. -/
def lossy (bs : List UInt8) : List Char :=
  match bs with
  | [] => []
  | b :: rest =>
    match (b :: rest.take 3).toByteArray.utf8DecodeChar? 0 with
    | some c => c :: lossy (rest.drop (c.utf8Size - 1))
    | none => '\uFFFD' :: lossy (rest.drop (brokenLength (b :: rest) - 1))
termination_by bs.length
decreasing_by all_goals simp only [List.length_drop, List.length_cons]; omega

end ScriptEngine.Text
