import ScriptEngine.Text.CharSet
import ScriptEngine.Numeric.Decimal
import ScriptEngine.Numeric.Integer
import ScriptEngine.Numeric.Digits

/-!
# Numbers out of texts

Three ways to read a number: from the whole text, from the longest decimal at its start, and from
the longest run of digits of a radix at its start. Blanks around (or before) the number are skipped.
-/

namespace ScriptEngine.Numeric

def radixOfMark? (c : Char) : Option Nat :=
  if c = 'x' ∨ c = 'X' then some 16
  else if c = 'o' ∨ c = 'O' then some 8
  else if c = 'b' ∨ c = 'B' then some 2
  else none

def splitRadix? : List Char → Option (Nat × List Char)
  | '0' :: c :: cs => (radixOfMark? c).map fun radix => (radix, cs)
  | _ => none

def infinityWord? (cs : List Char) : Option Float :=
  if cs = "Infinity".toList ∨ cs = "+Infinity".toList then some infinity
  else if cs = "-Infinity".toList then some negInfinity
  else none

def isDecimalChar (c : Char) : Bool :=
  isDigit c || c = '.' || c = 'e' || c = 'E' || c = '+' || c = '-'

/-- The number written by a whole text: nothing is zero, and what is no number is not-a-number. -/
def ofChars (text : List Char) : Float :=
  let cs := Text.trim text
  if cs.isEmpty then 0
  else
    match splitRadix? cs with
    | some (radix, ds) => if ds.isEmpty then nan else (readRadix? radix ds).getD nan
    | none =>
      match infinityWord? cs with
      | some x => x
      | none => if cs.all isDecimalChar then (readFloat? cs).getD nan else nan

def ofText (s : String) : Float :=
  ofChars s.toList

def takeExponent : List Char → List Char
  | e :: '+' :: cs => mark e ['+'] cs
  | e :: '-' :: cs => mark e ['-'] cs
  | e :: cs => mark e [] cs
  | [] => []
where
  mark (e : Char) (sign cs : List Char) : List Char :=
    let ds := cs.takeWhile isDigit
    if (e = 'e' ∨ e = 'E') ∧ !ds.isEmpty then e :: sign ++ ds else []

def takeFraction : List Char → List Char
  | '.' :: cs => '.' :: cs.takeWhile isDigit
  | _ => []

def takeSign : List Char → List Char
  | '+' :: _ => ['+']
  | '-' :: _ => ['-']
  | _ => []

def takeDecimal? (cs : List Char) : Option (List Char) :=
  let sign := takeSign cs
  let rest := cs.drop sign.length
  let whole := rest.takeWhile isDigit
  let fraction := takeFraction (rest.drop whole.length)
  let body := whole ++ fraction
  if body.isEmpty || body == ['.'] then none
  else some (sign ++ body ++ takeExponent (rest.drop body.length))

def leadingFloat (text : String) : Float :=
  let cs := Text.trimStart text.toList
  if "Infinity".toList.isPrefixOf cs || "+Infinity".toList.isPrefixOf cs then infinity
  else if "-Infinity".toList.isPrefixOf cs then negInfinity
  else
    match takeDecimal? cs with
    | some ds => (readFloat? ds).getD nan
    | none => nan

def splitHexMark (radix : Nat) : List Char → Nat × List Char
  | '0' :: c :: cs =>
    if (radix = 0 ∨ radix = 16) ∧ (c = 'x' ∨ c = 'X') then (16, cs) else (radix, '0' :: c :: cs)
  | cs => (radix, cs)

def leadingInteger (text : String) (radix : UInt32) : Float :=
  let (negative, cs) := splitSign (Text.trimStart text.toList)
  let (radix, cs) := splitHexMark radix.toNat cs
  let radix := if radix = 0 then 10 else radix
  if radix < 2 ∨ 36 < radix then nan
  else
    let ds := cs.takeWhile (isRadixDigit radix)
    if ds.isEmpty then nan
    else
      let n := (readRadix? radix ds).getD nan
      if negative then -1.0 * n else 1.0 * n

end ScriptEngine.Numeric
