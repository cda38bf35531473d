import ScriptEngine.Numeric.Binary64

/-!
# Integer parts, words and remainders

The integer part of a finite double is exact, and positions and lengths see it as it is. The
remainder of two doubles is taken on their exact values. Bitwise operators see a double as a word,
which is worked out in doubles: the fraction is dropped, the Euclidean remainder by `2 ^ 32` is
taken, and that is cast.
-/

namespace ScriptEngine.Numeric

/-- The integer part of `mantissa * 2 ^ exponent` with a sign, rounded toward zero. -/
def integerPart (negative : Bool) (mantissa : Nat) (exponent : Int) : Int :=
  let magnitude := (mantissa <<< exponent.toNat) >>> (-exponent).toNat
  if negative then -Int.ofNat magnitude else Int.ofNat magnitude

def truncate? (x : Float) : Option Int :=
  match decode x with
  | .finite negative mantissa exponent => some (integerPart negative mantissa exponent)
  | _ => none

def exactInt? (x : Float) : Option Int :=
  match decode x with
  | .finite negative mantissa exponent =>
    let k := (-exponent).toNat
    if (mantissa >>> k) <<< k = mantissa then
      some (integerPart negative mantissa exponent) else none
  | _ => none

def truncated (x : Float) : Float :=
  match decode x with
  | .finite negative m e =>
    if e < 0 then
      let whole := Float.ofNat (m >>> (-e).toNat)
      if negative then whole.neg else whole
    else x
  | _ => x

/-- The remainder of `x` by `y` with the sign of `x`, on exact values. -/
def remainder (x y : Float) : Float :=
  match decode x, decode y with
  | .finite negative mx ex, .finite _ my ey =>
    if my = 0 then nan
    else
      let e := min ex ey
      let r := (mx <<< (ex - e).toNat) % (my <<< (ey - e).toNat)
      ofDyadic negative r e
  | .finite .., .infinite _ => x
  | _, _ => nan

def euclideanRemainder (x y : Float) : Float :=
  let r := remainder x y
  if r < 0 then r + y.abs else r

/-- A double as a word: its integer part is reduced in doubles, and the result is cast. -/
def toWord (x : Float) : UInt32 :=
  if isFinite x then (euclideanRemainder (truncated x) 4294967296).toUInt32 else 0

def toSignedWord (x : Float) : Int32 :=
  (toWord x).toInt32

/-- The places of a shift, out of a count that went through a signed word. -/
def shiftPlaces (count : Int32) : UInt32 :=
  count.toUInt32 &&& 31

def shiftLeft (w count : Int32) : Int32 :=
  w <<< (shiftPlaces count).toInt32

def shiftRight (w count : Int32) : Int32 :=
  w >>> (shiftPlaces count).toInt32

/-- Powers. An exponent that is not a number gives no number, whatever the base, and so does an
infinite exponent of plus or minus one. -/
def power (base exponent : Float) : Float :=
  match decode exponent with
  | .nan => nan
  | .infinite _ => if base.abs == 1 then nan else base.pow exponent
  | .finite .. => base.pow exponent

end ScriptEngine.Numeric
