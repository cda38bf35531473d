import ScriptEngine.Numeric.Numeral
import ScriptEngine.Numeric.Reading

/-!
# Values

A value is a primitive or a reference to an object of the heap. Everything here is decided by the
value alone, without a look at the heap and without running any program.
-/

namespace ScriptEngine

abbrev ObjectId := Nat

inductive Value where
  | undefined
  | null
  | bool (b : Bool)
  | number (x : Float)
  | string (s : String)
  | object (id : ObjectId)
deriving Inhabited

namespace Value

def isNullish : Value → Bool
  | .undefined | .null => true
  | _ => false

def isObject : Value → Bool
  | .object _ => true
  | _ => false

def truthy : Value → Bool
  | .undefined | .null => false
  | .bool b => b
  | .number x => !(Numeric.isZero x || Numeric.isNaN x)
  | .string s => !s.isEmpty
  | .object _ => true

def number? : Value → Option Float
  | .undefined => some Numeric.nan
  | .null => some 0
  | .bool b => some (if b then 1 else 0)
  | .number x => some x
  | .string s => some (Numeric.ofText s)
  | .object _ => none

def text? : Value → Option String
  | .undefined => some "undefined"
  | .null => some "null"
  | .bool b => some (if b then "true" else "false")
  | .number x => some (Numeric.render x)
  | .string s => some s
  | .object _ => none

def ofNat (n : Nat) : Value :=
  .number (Float.ofNat n)

def ofInt (n : Int) : Value :=
  .number (Float.ofInt n)

/-- Strict equality: same variant, same value. Objects are compared by identity, and what is not a
number equals nothing. -/
def strictEquals : Value → Value → Bool
  | .undefined, .undefined => true
  | .null, .null => true
  | .bool a, .bool b => a == b
  | .number x, .number y => x == y
  | .string s, .string t => s == t
  | .object i, .object j => i == j
  | _, _ => false

/-- Strict equality, except that what is not a number equals itself. -/
def sameValueZero : Value → Value → Bool
  | .number x, .number y => (Numeric.isNaN x && Numeric.isNaN y) || x == y
  | a, b => strictEquals a b

def numberIfBool : Value → Value
  | .bool b => .number (if b then 1 else 0)
  | v => v

/-- Loose equality of primitives: strict for one variant, and by number otherwise, where null and
undefined equal each other and nothing else. -/
def looseBasic : Value → Value → Bool
  | .undefined, b => b.isNullish
  | .null, b => b.isNullish
  | .bool a, .bool b => a == b
  | .string s, .string t => s == t
  | a, b =>
    if b.isNullish then false
    else
      match a.number?, b.number? with
      | some x, some y => x == y
      | _, _ => false

end Value

end ScriptEngine
