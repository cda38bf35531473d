import ScriptEngine.Numeric.Shortest

/-!
# The text of a number

Shortest digits laid out positionally while the point stays near them, and with an exponent
otherwise. Both zeros read `0`.
-/

namespace ScriptEngine.Numeric

/-- Where positional layout ends: the largest point it reaches, and the most zeros after `0.`. -/
structure Layout where
  maxPoint : Int
  maxZeros : Int

/-- Numbers below `10 ^ 21` and from `10 ^ -6` up are written positionally. -/
def numeralLayout : Layout := ⟨21, 5⟩

def zeros (n : Int) : List Char :=
  List.replicate n.toNat '0'

def exponentText (e : Int) : List Char :=
  'e' :: (if e < 0 then '-' else '+') :: Nat.toDigits 10 e.natAbs

def Layout.write (l : Layout) (d : Digits) : List Char :=
  let count := Int.ofNat d.digits.length
  if count ≤ d.point ∧ d.point ≤ l.maxPoint then
    d.digits ++ zeros (d.point - count)
  else if 0 < d.point ∧ d.point ≤ l.maxPoint then
    d.digits.take d.point.toNat ++ '.' :: d.digits.drop d.point.toNat
  else if -l.maxZeros ≤ d.point ∧ d.point ≤ 0 then
    '0' :: '.' :: zeros (-d.point) ++ d.digits
  else
    match d.digits with
    | [] => exponentText (d.point - 1)
    | [lead] => lead :: exponentText (d.point - 1)
    | lead :: rest => lead :: '.' :: rest ++ exponentText (d.point - 1)

def numeral (x : Float) : List Char :=
  match decode x with
  | .nan => "NaN".toList
  | .infinite false => "Infinity".toList
  | .infinite true => "-Infinity".toList
  | .finite negative mantissa exponent =>
    if mantissa = 0 then ['0']
    else
      let body := numeralLayout.write (shortest mantissa exponent)
      if negative then '-' :: body else body

def render (x : Float) : String :=
  String.ofList (numeral x)

end ScriptEngine.Numeric
