import ScriptEngine.Numeric.Digits
import ScriptEngine.Numeric.Shortest

/-!
# Reading decimal numbers

A decimal is an optional sign, digits with at most one point and at least one digit, and an optional
exponent. Its value is the nearest double. The words for infinity and not-a-number are read in any
case of their letters.
-/

namespace ScriptEngine.Numeric

structure Decimal where
  significand : Nat
  exponent : Int
deriving DecidableEq, Inhabited

/-- The nearest double. Numbers far outside the doubles are settled by their size alone: a power of
two with exponent `b` lies between the powers of ten with exponents `3 * b / 10` and
`31 * b / 100 + 1`. -/
def Decimal.toFloat (negative : Bool) (d : Decimal) : Float :=
  let bits := Int.ofNat d.significand.log2
  if d.significand = 0 ∨ 31 * (bits + 1) / 100 + 1 + d.exponent < -330 then pack negative 0
  else if 310 < 3 * bits / 10 + d.exponent then if negative then negInfinity else infinity
  else ofRatio negative (d.significand * Nat.pow 10 d.exponent.toNat)
    (Nat.pow 10 (-d.exponent).toNat)

def splitSign : List Char → Bool × List Char
  | '-' :: cs => (true, cs)
  | '+' :: cs => (false, cs)
  | cs => (false, cs)

def splitFraction : List Char → List Char × List Char
  | '.' :: cs => cs.span isDigit
  | cs => ([], cs)

/-- An exponent takes no more digits once it has reached this size. -/
def exponentLimit : Nat := 65536

/-- The exponent written by decimal digits. Digits after `exponentLimit` is reached leave it as it
is, so it stays below ten times the limit however long the text. -/
def exponentOf (ds : List Char) : Nat :=
  ds.foldl (fun n c => if n < exponentLimit then n * 10 + digitValue c else n) 0

def readExponent? : List Char → Option Int
  | [] => some 0
  | c :: cs =>
    if c = 'e' ∨ c = 'E' then
      let (negative, ds) := splitSign cs
      if ds.isEmpty || !ds.all isDigit then none
      else if negative then some (-Int.ofNat (exponentOf ds))
      else some (Int.ofNat (exponentOf ds))
    else none

def Decimal.read? (cs : List Char) : Option Decimal :=
  let (whole, rest) := cs.span isDigit
  let (fraction, rest) := splitFraction rest
  if whole.isEmpty && fraction.isEmpty then none
  else
    (readExponent? rest).map fun e =>
      ⟨naturalOf (whole ++ fraction), e - Int.ofNat fraction.length⟩

/-- A word for a number without digits, in small letters. -/
def specialOf? (negative : Bool) (word : List Char) : Option Float :=
  if word = "inf".toList ∨ word = "infinity".toList then
    some (if negative then negInfinity else infinity)
  else if word = "nan".toList then some nan
  else none

def readFloat? (cs : List Char) : Option Float :=
  let (negative, rest) := splitSign cs
  match specialOf? negative (rest.map Char.toLower) with
  | some x => some x
  | none => (Decimal.read? rest).map (Decimal.toFloat negative)

end ScriptEngine.Numeric
