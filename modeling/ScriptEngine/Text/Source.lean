import ScriptEngine.Text.Span

/-!
# Source texts

A named text, read by lines and by byte ranges. Lines are separated by newline characters, and a
table of their starts finds them. Carriage returns at the end of a line do not belong to it.
-/

namespace ScriptEngine.Text

def trimReturns (cs : List Char) : List Char :=
  (cs.reverse.dropWhile (· == '\r')).reverse

/-- What is left after exactly `n` bytes, if a character ends there. -/
def dropBytes : Nat → List Char → Option (List Char)
  | 0, cs => some cs
  | _ + 1, [] => none
  | n + 1, c :: cs => if c.utf8Size ≤ n + 1 then dropBytes (n + 1 - c.utf8Size) cs else none

def takeBytes : Nat → List Char → Option (List Char)
  | 0, _ => some []
  | _ + 1, [] => none
  | n + 1, c :: cs =>
    if c.utf8Size ≤ n + 1 then (takeBytes (n + 1 - c.utf8Size) cs).map (c :: ·) else none

structure Source where
  name : String
  text : String
deriving DecidableEq, Inhabited

namespace Source

def lineStarts (s : Source) : List Nat :=
  0 :: (s.text.toByteArray.data.toList.zipIdx.filter (·.1 = '\n'.toUInt8)).map (·.2 + 1)

def lineCount (s : Source) : Nat :=
  s.lineStarts.length

def range? (s : Source) (start stop : Nat) : Option (List Char) :=
  if start ≤ stop then (dropBytes start s.text.toList).bind (takeBytes (stop - start)) else none

def line? (s : Source) : Nat → Option String
  | 0 => none
  | n + 1 => do
    let start ← s.lineStarts[n]?
    let stop := (s.lineStarts[n + 1]?.map (· - 1)).getD s.text.utf8ByteSize
    let line ← s.range? start stop
    return String.ofList (trimReturns line)

/-- The text of a byte range; empty when the range does not fall on characters of the text. -/
def slice (s : Source) (start stop : Nat) : String :=
  match s.range? start stop with
  | some cs => String.ofList cs
  | none => ""

def endPosition (s : Source) : Position :=
  ⟨s.text.utf8ByteSize, s.lineCount, ((s.line? s.lineCount).getD "").length + 1⟩
end Source

end ScriptEngine.Text
