/-!
# Doubles as exact numbers

A finite double is a signed whole number of units, the unit being a power of two. `decode` reads
that off the bits; `ofRatio` goes back, rounding a quotient of naturals to the nearest double with
ties to the even one. Everything in between is exact arithmetic on naturals and integers.
-/

namespace ScriptEngine.Numeric

/-- What a double stands for; a finite one is `mantissa * 2 ^ exponent` with a sign. -/
inductive Decoded where
  | nan
  | infinite (negative : Bool)
  | finite (negative : Bool) (mantissa : Nat) (exponent : Int)
deriving DecidableEq

def decodeBits (bits : UInt64) : Decoded :=
  let negative := bits >>> 63 == 1
  let biased := ((bits >>> 52) &&& 0x7FF).toNat
  let fraction := (bits &&& 0xFFFFFFFFFFFFF).toNat
  if biased = 2047 then
    if fraction = 0 then .infinite negative else .nan
  else if biased = 0 then
    .finite negative fraction (-1074)
  else
    .finite negative (0x10000000000000 + fraction) (Int.ofNat biased - 1075)

def decode (x : Float) : Decoded :=
  decodeBits x.toBits

def pack (negative : Bool) (magnitude : Nat) : Float :=
  if negative then Float.ofBits (0x8000000000000000 ||| magnitude.toUInt64)
  else Float.ofBits magnitude.toUInt64

/-- The nearest natural to a quotient, the even one of two at the same distance. -/
def roundQuotient (num den : Nat) : Nat :=
  let q := num / den
  let r := num % den
  if 2 * r < den then q
  else if den < 2 * r then q + 1
  else q + q % 2

/-- The greatest `k` with `2 ^ k ≤ num / den`, for positive `num` and `den`. -/
def binaryOrder (num den : Nat) : Int :=
  let k := Int.ofNat num.log2 - Int.ofNat den.log2
  if den <<< k.toNat ≤ num <<< (-k).toNat then k else k - 1

/-- The bits below the sign of the double nearest to `num / den`. -/
def magnitudeBits (num den : Nat) : Nat :=
  if num = 0 then 0
  else
    let q := max (-1074) (binaryOrder num den - 52)
    let m := roundQuotient (num <<< (-q).toNat) (den <<< q.toNat)
    min ((q + 1074).toNat * 0x10000000000000 + m) (2047 * 0x10000000000000)

def ofRatio (negative : Bool) (num den : Nat) : Float :=
  pack negative (magnitudeBits num den)

def ofDyadic (negative : Bool) (mantissa : Nat) (exponent : Int) : Float :=
  ofRatio negative (mantissa <<< exponent.toNat) (1 <<< (-exponent).toNat)

def nan : Float :=
  Float.ofBits 0x7FF8000000000000

def infinity : Float :=
  Float.ofBits 0x7FF0000000000000

def negInfinity : Float :=
  Float.ofBits 0xFFF0000000000000

def isNaN (x : Float) : Bool :=
  match decode x with
  | .nan => true
  | _ => false

def isFinite (x : Float) : Bool :=
  match decode x with
  | .finite .. => true
  | _ => false

def isZero (x : Float) : Bool :=
  match decode x with
  | .finite _ mantissa _ => mantissa == 0
  | _ => false

def isNegative (x : Float) : Bool :=
  x.toBits >>> 63 == 1

end ScriptEngine.Numeric
