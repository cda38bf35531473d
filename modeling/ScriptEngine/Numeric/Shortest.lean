import ScriptEngine.Numeric.Binary64

/-!
# Shortest decimal digits

The decimal significand of a positive double: the fewest digits that read back as that double, and
among those the nearest. The numbers that read back form an interval around the double, whose ends
belong to it when the mantissa is even. For each digit count in turn the two neighbours of the
double on that decimal grid are tested in exact arithmetic.
-/

namespace ScriptEngine.Numeric

/-- A decimal significand with the place of its point: `0.d₁d₂… * 10 ^ point`. -/
structure Digits where
  digits : List Char
  point : Int
deriving DecidableEq, Inhabited

/-- A positive double in quarters of its unit, with the interval of numbers that read back as it. -/
structure Neighbourhood where
  low : Nat
  mid : Nat
  high : Nat
  closed : Bool
  exponent : Int

/-- Below a power of two the doubles lie twice as dense. -/
def Neighbourhood.around (mantissa : Nat) (exponent : Int) : Neighbourhood where
  low := 4 * mantissa - if mantissa = 0x10000000000000 ∧ -1074 < exponent then 1 else 2
  mid := 4 * mantissa
  high := 4 * mantissa + 2
  closed := mantissa % 2 == 0
  exponent := exponent - 2

/-- The decimal grid of step `10 ^ exponent`, scaled so that grid and double are both naturals:
the grid point `c` is `c * step` and the number `x` of quarters is `x * unit`. -/
structure Grid where
  step : Nat
  unit : Nat

def Grid.of (n : Neighbourhood) (exponent : Int) : Grid where
  step := Nat.pow 10 exponent.toNat * 1 <<< (-n.exponent).toNat
  unit := Nat.pow 10 (-exponent).toNat * 1 <<< n.exponent.toNat

def Grid.hits (g : Grid) (n : Neighbourhood) (c : Nat) : Bool :=
  if n.closed then n.low * g.unit ≤ c * g.step && c * g.step ≤ n.high * g.unit
  else n.low * g.unit < c * g.step && c * g.step < n.high * g.unit

/-- The grid point next to the double that reads back, the nearer of two, the upper at a tie. -/
def Grid.nearest? (g : Grid) (n : Neighbourhood) : Option Nat :=
  let below := n.mid * g.unit / g.step
  let above := below + 1
  if g.hits n below then
    if g.hits n above then
      if 2 * (n.mid * g.unit) < (below + above) * g.step then some below else some above
    else some below
  else if g.hits n above then some above
  else none

def decimalLength (n : Nat) : Nat :=
  (Nat.repr n).length

/-- The place of the decimal point of `num / den`: it lies in `[10 ^ (p - 1), 10 ^ p)`. -/
def decimalPoint (num den : Nat) : Int :=
  let k := Int.ofNat (decimalLength num) - Int.ofNat (decimalLength den)
  if den * Nat.pow 10 k.toNat ≤ num * Nat.pow 10 (-k).toNat then k + 1 else k

/-- The first digit count, up to seventeen, on whose grid some point reads back. -/
def shortestOn (n : Neighbourhood) (point : Int) : Nat × Int :=
  let found := (List.range' 1 17).findSome? fun count =>
    let exponent := point - Int.ofNat count
    (Grid.nearest? (Grid.of n exponent) n).map fun c => (c, exponent)
  found.getD (0, 0)

def trimZeros (ds : List Char) : List Char :=
  (ds.reverse.dropWhile (· == '0')).reverse

def shortest (mantissa : Nat) (exponent : Int) : Digits :=
  let n := Neighbourhood.around mantissa exponent
  let point := decimalPoint (mantissa <<< exponent.toNat) (1 <<< (-exponent).toNat)
  let found := shortestOn n point
  let ds := Nat.toDigits 10 found.1
  ⟨trimZeros ds, Int.ofNat ds.length + found.2⟩

end ScriptEngine.Numeric
