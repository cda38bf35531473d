import Std.Data.TreeMap
import ScriptEngine.Heap.Native
import ScriptEngine.Syntax.Tree
import ScriptEngine.Value

/-!
# Objects

An object has own properties in the order of their keys, a prototype, and a kind. Arrays keep their
elements apart: index keys and `length` are read from the elements and never stored as properties.
-/

namespace ScriptEngine

abbrev ScopeId := Nat

def maxArrayLength : Nat := 4194304

/-- The index that a key spells: decimal digits without leading zeros, below `2 ^ 32 - 1`. -/
def arrayIndex? (key : String) : Option Nat :=
  match key.toList with
  | [] => none
  | c :: cs =>
    if !(c :: cs).all Numeric.isDigit then none
    else if c = '0' ∧ !cs.isEmpty then none
    else
      let n := Numeric.naturalOf (c :: cs)
      if n < 4294967295 then some n else none

def arrayLength? (x : Float) : Option Nat :=
  match Numeric.exactInt? x with
  | some n => if 0 ≤ n ∧ n ≤ Int.ofNat maxArrayLength then some n.toNat else none
  | none => none

def invalidLengthMessage : String :=
  "Invalid array length"

namespace Object

inductive Kind where
  | plain
  | array (items : Array Value)
  | closure (function : Function) (scope : ScopeId)
  | native (name : String) (function : Native)
  | error
deriving Inhabited

namespace Kind

def isCallable : Kind → Bool
  | .closure .. | .native .. => true
  | _ => false

def className : Kind → String
  | .plain => "Object"
  | .array _ => "Array"
  | .closure .. | .native .. => "Function"
  | .error => "Error"

def functionName? : Kind → Option String
  | .closure f _ => f.name.map Ident.name
  | .native name _ => some name
  | _ => none

end Kind

end Object

abbrev Properties := Std.TreeMap String Value

structure Object where
  kind : Object.Kind
  prototype : Option ObjectId
  properties : Properties

namespace Object

def bare (kind : Kind) (prototype : Option ObjectId) : Object :=
  ⟨kind, prototype, ∅⟩

instance : Inhabited Object := ⟨bare .plain none⟩

def elements? (o : Object) : Option (Array Value) :=
  match o.kind with
  | .array items => some items
  | _ => none

def isArray (o : Object) : Bool :=
  o.elements?.isSome

/-- An own property, where arrays answer for their length and their elements. -/
def getOwn? (o : Object) (key : String) : Option Value :=
  match o.kind with
  | .array items =>
    if key = "length" then some (.ofNat items.size)
    else
      match arrayIndex? key with
      | some i => items[i]?
      | none => o.properties[key]?
  | _ => o.properties[key]?

def hasOwn (o : Object) (key : String) : Bool :=
  (o.getOwn? key).isSome

def keys (o : Object) : List String :=
  let indices := match o.kind with
    | .array items => (List.range items.size).map toString
    | _ => []
  indices ++ o.properties.keys

inductive Slot where
  | length (n : Nat)
  | element (i : Nat)
  | property
deriving DecidableEq

/-- The place that writing a value under a key reaches; none when the array would get too long. -/
def slot? (o : Object) (key : String) (value : Value) : Option Slot :=
  match o.kind with
  | .array _ =>
    if key = "length" then (value.number?.bind arrayLength?).map .length
    else
      match arrayIndex? key with
      | some i => if i < maxArrayLength then some (.element i) else none
      | none => some .property
  | _ => some .property

def resize (items : Array Value) (n : Nat) : Array Value :=
  if n ≤ items.size then items.shrink n
  else items ++ Array.replicate (n - items.size) .undefined

def define (o : Object) (key : String) (value : Value) : Object :=
  { o with properties := o.properties.insert key value }

def write (o : Object) (slot : Slot) (key : String) (value : Value) : Object :=
  match slot, o with
  | .length n, ⟨.array items, prototype, properties⟩ =>
    ⟨.array (resize items n), prototype, properties⟩
  | .element i, ⟨.array items, prototype, properties⟩ =>
    if i < items.size then ⟨.array (items.setIfInBounds i value), prototype, properties⟩
    else ⟨.array ((resize items i).push value), prototype, properties⟩
  | _, o => o.define key value

def set? (o : Object) (key : String) (value : Value) : Option Object :=
  (o.slot? key value).map fun slot => o.write slot key value

def append (o : Object) (values : List Value) : Object :=
  match o with
  | ⟨.array items, prototype, properties⟩ =>
    ⟨.array (items ++ values.toArray), prototype, properties⟩
  | o => o

def last (o : Object) : Value :=
  match o.kind with
  | .array items => items.back?.getD .undefined
  | _ => .undefined

def dropLast (o : Object) : Object :=
  match o with
  | ⟨.array items, prototype, properties⟩ => ⟨.array items.pop, prototype, properties⟩
  | o => o

end Object

end ScriptEngine
