import ScriptEngine.Evaluation.Coercion
import ScriptEngine.Text.Casing

/-!
# What native functions do

Each native function takes the receiver and the arguments of its call. Positions are counted by the
integer part of a number, from the end when negative.
-/

namespace ScriptEngine

namespace Native

open Eval

def arg (args : List Value) (i : Nat) : Value :=
  args.getD i .undefined

/-- A position in a sequence of a length: the integer part of a negative number counts from the end,
also when it is zero, and no position lies outside. -/
def relativeIndex (x : Float) (length : Nat) : Nat :=
  match Numeric.decode x with
  | .nan => 0
  | .infinite negative => if negative then 0 else length
  | .finite negative mantissa exponent =>
    let t := Numeric.integerPart negative mantissa exponent
    if negative ∧ mantissa ≠ 0 then (Int.ofNat length + t).toNat else min t.toNat length

/-- The first of a number of places where a run of units stands, the first place having a given
index. -/
def findAmong (needle : List Text.Unit16) : Nat → Nat → List Text.Unit16 → Option Nat
  | 0, _, _ => none
  | places + 1, i, us =>
    if needle.isPrefixOf us then some i else findAmong needle places (i + 1) (us.drop 1)

/-- The first index of a run of units, not before a given one. Only places that leave room for the
whole run are tried. -/
def findUnits (needle : List Text.Unit16) (start : Nat) (us : List Text.Unit16) : Option Nat :=
  let rest := us.drop start
  findAmong needle (rest.length + 1 - needle.length) start rest

def tagOf (h : Heap) : Value → String
  | .undefined => "Undefined"
  | .null => "Null"
  | .bool _ => "Boolean"
  | .number _ => "Number"
  | .string _ => "String"
  | .object id => (h.object id).kind.className

def functionText (h : Heap) (v : Value) : String :=
  match v with
  | .object id =>
    match (h.object id).kind with
    | .native name _ => "function " ++ name ++ "() \x7b [native code] \x7d"
    | .closure f _ => f.text
    | _ => h.display v
  | _ => h.display v

def ownsKey (h : Heap) (v : Value) (key : String) : Bool :=
  match v with
  | .object id => (h.object id).hasOwn key
  | .string s =>
    key == "length" || (arrayIndex? key).any (· < Text.unitLength s)
  | _ => false

def thisArray (v : Value) (method : String) : Eval (ObjectId × Array Value) := do
  match v with
  | .object id =>
    match ← reading fun m => (m.heap.object id).elements? with
    | some items => return (id, items)
    | none => throwNamed .typeError ("Array.prototype." ++ method ++ " called on a non-array")
  | _ => throwNamed .typeError ("Array.prototype." ++ method ++ " called on a non-array")

theorem thisArray_of_elements {m : Machine} {id : ObjectId} {items : Array Value}
    (h : (m.heap.object id).elements? = some items) (method : String) :
    thisArray (.object id) method m = .ok (id, items) m := by
  have hread : reading (fun m => (m.heap.object id).elements?) m = .ok (some items) m := by
    rw [reading, h]
  exact bind_of_ok hread

variable (invoke : Invoke)

def positionArg (v : Value) (length missing : Nat) : Eval Nat := do
  match v with
  | .undefined => return missing
  | v => return relativeIndex (← toNumber invoke v) length

def sliceBounds (args : List Value) (length : Nat) : Eval (Nat × Nat) := do
  let start ← positionArg invoke (arg args 0) length 0
  let stop ← positionArg invoke (arg args 1) length length
  return (start, max stop start)

def elementTexts : List Value → Eval (List String)
  | [] => return []
  | v :: vs => do
    let text ← if v.isNullish then pure "" else toText invoke v
    return text :: (← elementTexts vs)

def whileJoining {α : Type} (id : ObjectId) (action : Eval α) : Eval α := do
  modify fun m => { m with joining := id :: m.joining }
  always action fun m => { m with joining := m.joining.tail }

/-- The elements of an array with a separator between them. An array that is being joined already
gives nothing. -/
def joinArray (id : ObjectId) (separator : String) : Eval String := do
  if ← reading fun m => m.joining.contains id then
    return ""
  else
    let items ← reading fun m => ((m.heap.object id).elements?.getD #[]).toList
    let texts ← whileJoining id (elementTexts invoke items)
    return separator.intercalate texts

def mapElements (callback array : Value) : Nat → List Value → Eval (List Value)
  | _, [] => return []
  | i, v :: vs => do
    let result ← callValue invoke callback .undefined [v, .ofNat i, array]
    return result :: (← mapElements callback array (i + 1) vs)

def unitAt (s : String) (x : Float) : String :=
  match Numeric.truncate? x with
  | some t => if 0 ≤ t then Text.ofUnits (Text.unitAt? t.toNat s.toList).toList else ""
  | none => ""

def sumArgs : Float → List Value → Eval Float
  | acc, [] => return acc
  | acc, v :: vs => do
    let x ← toNumber invoke v
    sumArgs (acc + x) vs

def errorPart (id : ObjectId) (key missing : String) : Eval String := do
  match ← reading fun m => m.heap.get id key with
  | .undefined => return missing
  | v => toText invoke v

def runHost (f : HostFunction) (receiver : Value) (args : List Value) : Eval Value := do
  match f with
  | .sum => return .number (← sumArgs invoke 0 args)
  | .fail => throwNamed .rangeError "host refused"
  | .raise => throwValue (arg args 0)
  | .internal => throw (.internal (.host "host invariant"))
  | .apply => callValue invoke (arg args 0) (arg args 1) (args.drop 2)
  | .self => return receiver
  | .args => newArray args.toArray
  | .stack =>
    let frames ← reading (·.frames)
    newArray (frames.reverse.map fun f => Value.string f.render).toArray
  | .prim => toPrimitive invoke (arg args 0)
  | .str => return .string (← toText invoke (arg args 0))
  | .key => return .string (← toKey invoke (arg args 0))
  | .loose => return .bool (← looseEquals invoke (arg args 0) (arg args 1))
  | .same => return .bool ((arg args 0).sameValueZero (arg args 1))
  | .display => return .string (← reading fun m => m.heap.display (arg args 0))
  | .peek =>
    let name ← toText invoke (arg args 0)
    reading fun m => (m.scopes.lookup? m.current name).getD .undefined
  | .getProperty =>
    let key ← toKey invoke (arg args 1)
    getProperty (arg args 0) key
  | .setProperty =>
    let key ← toKey invoke (arg args 1)
    setProperty invoke (arg args 0) key (arg args 2)
    return arg args 0
  | .keys =>
    let keys ← reading fun m =>
      match arg args 0 with
      | .object id => (m.heap.object id).keys
      | _ => []
    newArray (keys.map Value.string).toArray
  | .makeError =>
    let name ← toText invoke (arg args 0)
    let message ← toText invoke (arg args 1)
    newError name message

def run (native : Native) (receiver : Value) (args : List Value) : Eval Value := do
  match native with
  | .objectConstructor =>
    match arg args 0 with
    | .object id => return .object id
    | _ => return .object (← newPlain)
  | .arrayConstructor =>
    match args with
    | [.number x] =>
      match arrayLength? x with
      | some n => newArray (Array.replicate n .undefined)
      | none => throwNamed .rangeError invalidLengthMessage
    | _ => newArray args.toArray
  | .stringConstructor =>
    match args with
    | [] => return .string ""
    | v :: _ => return .string (← toText invoke v)
  | .numberConstructor =>
    match args with
    | [] => return .number 0
    | v :: _ => return .number (← toNumber invoke v)
  | .booleanConstructor => return .bool (arg args 0).truthy
  | .errorConstructor c =>
    match arg args 0 with
    | .undefined => newError c.name ""
    | v => newError c.name (← toText invoke v)
  | .arrayIsArray => return .bool (← elements? (arg args 0)).isSome
  | .numberIsNaN =>
    match arg args 0 with
    | .number x => return .bool (Numeric.isNaN x)
    | _ => return .bool false
  | .numberIsFinite =>
    match arg args 0 with
    | .number x => return .bool (Numeric.isFinite x)
    | _ => return .bool false
  | .numberIsInteger =>
    match arg args 0 with
    | .number x => return .bool (Numeric.exactInt? x).isSome
    | _ => return .bool false
  | .numberParseFloat => return .number (Numeric.leadingFloat (← toText invoke (arg args 0)))
  | .numberParseInt =>
    let text ← toText invoke (arg args 0)
    match arg args 1 with
    | .undefined => return .number (Numeric.leadingInteger text 0)
    | v =>
      let radix ← toNumber invoke v
      return .number (Numeric.leadingInteger text (Numeric.toWord radix))
  | .hasOwnProperty =>
    let key ← toKey invoke (arg args 0)
    return .bool (← reading fun m => ownsKey m.heap receiver key)
  | .objectToString =>
    return .string ("[object " ++ (← reading fun m => tagOf m.heap receiver) ++ "]")
  | .identity => return receiver
  | .functionToString => return .string (← reading fun m => functionText m.heap receiver)
  | .arrayPush =>
    let (id, items) ← thisArray receiver "push"
    let length := items.size + args.length
    if maxArrayLength < length then
      throwNamed .rangeError invalidLengthMessage
    else
      modify fun m => { m with heap := m.heap.modify id (·.append args) }
      return .ofNat length
  | .arrayPop =>
    let (id, _) ← thisArray receiver "pop"
    let last ← reading fun m => (m.heap.object id).last
    modify fun m => { m with heap := m.heap.modify id (·.dropLast) }
    return last
  | .arrayJoin =>
    let (id, _) ← thisArray receiver "join"
    let separator ← match arg args 0 with
      | .undefined => pure ","
      | v => toText invoke v
    return .string (← joinArray invoke id separator)
  | .arrayToString =>
    let (id, _) ← thisArray receiver "toString"
    return .string (← joinArray invoke id ",")
  | .arrayIndexOf =>
    let (_, items) ← thisArray receiver "indexOf"
    match items.findIdx? (·.strictEquals (arg args 0)) with
    | some i => return .ofNat i
    | none => return .ofInt (-1)
  | .arrayIncludes =>
    let (_, items) ← thisArray receiver "includes"
    return .bool (items.any (·.sameValueZero (arg args 0)))
  | .arraySlice =>
    let (_, items) ← thisArray receiver "slice"
    let (start, stop) ← sliceBounds invoke args items.size
    newArray (items.extract start stop)
  | .arrayMap =>
    let (_, items) ← thisArray receiver "map"
    let mapped ← mapElements invoke (arg args 0) receiver 0 items.toList
    newArray mapped.toArray
  | .arrayForEach =>
    let (_, items) ← thisArray receiver "forEach"
    let _ ← mapElements invoke (arg args 0) receiver 0 items.toList
    return .undefined
  | .stringCharAt =>
    let s ← toText invoke receiver
    match arg args 0 with
    | .undefined => return .string (unitAt s 0)
    | v => return .string (unitAt s (← toNumber invoke v))
  | .stringIndexOf =>
    let us := Text.units (← toText invoke receiver)
    let needle := Text.units (← toText invoke (arg args 0))
    let start ← match arg args 1 with
      | .undefined => pure 0
      | v => do
        let x ← toNumber invoke v
        pure (if x < 0 then 0 else relativeIndex x us.length)
    match findUnits needle start us with
    | some i => return .ofNat i
    | none => return .ofInt (-1)
  | .stringSlice =>
    let us := Text.units (← toText invoke receiver)
    let (start, stop) ← sliceBounds invoke args us.length
    return .string (Text.ofUnits ((us.drop start).take (stop - start)))
  | .stringToUpperCase => return .string (Text.toUpper (← toText invoke receiver))
  | .stringToLowerCase => return .string (Text.toLower (← toText invoke receiver))
  | .primitiveToString => return .string (← toText invoke receiver)
  | .errorToString =>
    match receiver with
    | .object id =>
      let name ← errorPart invoke id "name" "Error"
      let message ← errorPart invoke id "message" ""
      return .string (Heap.summaryText name message)
    | _ => throwNamed .typeError "Error.prototype.toString called on a non-object"
  | .host f => runHost invoke f receiver args

end Native

end ScriptEngine
