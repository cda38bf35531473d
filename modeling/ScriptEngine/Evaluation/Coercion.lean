import ScriptEngine.Machine

/-!
# Coercions and operators

Conversions that reach an object call its `toString`, which can be any function. Calls go through an
argument, so that everything here is defined before the evaluator that makes them.
-/

namespace ScriptEngine

abbrev Invoke := ObjectId → Value → List Value → Frame → Eval Value

namespace Eval

/-- The frame of a call that no expression of the program makes: it has the place of the innermost
active call. -/
def innerFrame (name : String) (frames : List Frame) : Frame :=
  match frames with
  | f :: _ => ⟨name, f.line, f.column⟩
  | [] => ⟨name, 0, 0⟩

def functionName (h : Heap) (id : ObjectId) : String :=
  (h.object id).kind.functionName?.getD "anonymous"

variable (invoke : Invoke)

def callValue (callee receiver : Value) (args : List Value) : Eval Value := do
  match ← reading fun m => m.heap.callable? callee with
  | none =>
    let shown ← reading fun m => m.heap.display callee
    throwNamed .typeError (shown ++ " is not a function")
  | some id =>
    let frame ← reading fun m => innerFrame (functionName m.heap id) m.frames
    invoke id receiver args frame

def toPrimitive (v : Value) : Eval Value := do
  match v with
  | .object id =>
    let method ← reading fun m => m.heap.get id "toString"
    if (← reading fun m => m.heap.callable? method).isSome then
      let result ← callValue invoke method v []
      if result.isObject then
        throwNamed .typeError "Cannot convert object to primitive value"
      else
        return result
    else
      throwNamed .typeError "Cannot convert object to primitive value"
  | _ => return v

def toNumber (v : Value) : Eval Float := do
  match v.number? with
  | some x => return x
  | none => return (← toPrimitive invoke v).number?.getD Numeric.nan

def toText (v : Value) : Eval String := do
  match v.text? with
  | some s => return s
  | none => return (← toPrimitive invoke v).text?.getD ""

def toKey (v : Value) : Eval String :=
  toText invoke v

/-- Loose equality: an object is reduced to a primitive against a primitive that is not nullish. -/
def looseEquals (a b : Value) : Eval Bool := do
  match a, b with
  | .object i, .object j => return i == j
  | .object _, b =>
    if b.isNullish then return false
    else return (← toPrimitive invoke a).looseBasic b.numberIfBool
  | a, .object _ =>
    if a.isNullish then return false
    else return a.numberIfBool.looseBasic (← toPrimitive invoke b)
  | a, b => return a.looseBasic b

def add (left right : Value) : Eval Value := do
  let a ← toPrimitive invoke left
  let b ← toPrimitive invoke right
  match a, b with
  | .string _, _ | _, .string _ => return .string (a.text?.getD "" ++ b.text?.getD "")
  | _, _ => return .number (a.number?.getD Numeric.nan + b.number?.getD Numeric.nan)

def compareNumbers (x y : Float) : Option Ordering :=
  if x < y then some .lt
  else if x == y then some .eq
  else if y < x then some .gt
  else none

def compareValues (left right : Value) : Eval (Option Ordering) := do
  let a ← toPrimitive invoke left
  let b ← toPrimitive invoke right
  match a, b with
  | .string s, .string t => return some (Text.compareUnits (Text.units s) (Text.units t))
  | _, _ => return compareNumbers (a.number?.getD Numeric.nan) (b.number?.getD Numeric.nan)

def arithmetic (op : Float → Float → Float) (left right : Value) : Eval Value := do
  let x ← toNumber invoke left
  let y ← toNumber invoke right
  return .number (op x y)

def onWords (op : Int32 → Int32 → Int32) (left right : Value) : Eval Value := do
  let x ← toNumber invoke left
  let y ← toNumber invoke right
  return .ofInt (op (Numeric.toSignedWord x) (Numeric.toSignedWord y)).toInt

def ordered (accepts : Option Ordering → Bool) (left right : Value) : Eval Value := do
  return .bool (accepts (← compareValues invoke left right))

def binary (op : BinaryOp) (left right : Value) : Eval Value :=
  match op with
  | .add => add invoke left right
  | .sub => arithmetic invoke (· - ·) left right
  | .mul => arithmetic invoke (· * ·) left right
  | .div => arithmetic invoke (· / ·) left right
  | .rem => arithmetic invoke Numeric.remainder left right
  | .exp => arithmetic invoke Numeric.power left right
  | .looseEq => return .bool (← looseEquals invoke left right)
  | .looseNe => return .bool (!(← looseEquals invoke left right))
  | .strictEq => return .bool (left.strictEquals right)
  | .strictNe => return .bool (!left.strictEquals right)
  | .less => ordered invoke (· == some .lt) left right
  | .lessEq => ordered invoke (fun o => o == some .lt || o == some .eq) left right
  | .greater => ordered invoke (· == some .gt) left right
  | .greaterEq => ordered invoke (fun o => o == some .gt || o == some .eq) left right
  | .bitAnd => onWords invoke (· &&& ·) left right
  | .bitOr => onWords invoke (· ||| ·) left right
  | .bitXor => onWords invoke (· ^^^ ·) left right
  | .shiftLeft => onWords invoke Numeric.shiftLeft left right
  | .shiftRight => onWords invoke Numeric.shiftRight left right
  | .shiftRightZero => do
    let x ← toNumber invoke left
    let y ← toNumber invoke right
    return .ofNat (Numeric.toWord x >>> (Numeric.toWord y &&& 31)).toNat

/-- Writes a property of any value. Writes to primitives are dropped, and an object that is assigned
as a length counts by its number. -/
def setProperty (base : Value) (key : String) (value : Value) : Eval Unit := do
  match base with
  | .object id =>
    let isArray ← reading fun m => (m.heap.object id).isArray
    if key = "length" && isArray && value.isObject then
      let x ← toNumber invoke value
      writeProperty id key (.number x)
    else
      writeProperty id key value
  | _ => return

end Eval

end ScriptEngine
