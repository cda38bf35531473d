import ScriptEngine.Heap.Object
import ScriptEngine.Text.Printable

/-!
# The heap

Objects are numbered in the order of their creation and never removed. A prototype exists before the
objects that have it, so following prototypes always reaches an older object and comes to an end.
-/

namespace ScriptEngine

abbrev Heap := Array Object

namespace Heap

def empty : Heap := #[]

/-- The object with a number; a number that is not in use has a plain object without anything. -/
def object (h : Heap) (id : ObjectId) : Object :=
  h.getD id default

def alloc (h : Heap) (o : Object) : Heap :=
  h.push o

def define (h : Heap) (id : ObjectId) (key : String) (value : Value) : Heap :=
  h.modify id (·.define key value)

def write (h : Heap) (id : ObjectId) (slot : Object.Slot) (key : String) (value : Value) : Heap :=
  h.modify id (·.write slot key value)

/-- The nearest own property along at most `n` prototypes. An index key of an array is not looked
for beyond the array. -/
def getWithin (h : Heap) (key : String) : Nat → ObjectId → Value
  | 0, _ => .undefined
  | n + 1, id =>
    let o := h.object id
    match o.getOwn? key with
    | some v => v
    | none =>
      if o.isArray && (arrayIndex? key).isSome then .undefined
      else
        match o.prototype with
        | some p => h.getWithin key n p
        | none => .undefined

def get (h : Heap) (id : ObjectId) (key : String) : Value :=
  h.getWithin key (id + 1) id

def callable? (h : Heap) : Value → Option ObjectId
  | .object id => if (h.object id).kind.isCallable then some id else none
  | _ => none

def typeOf (h : Heap) : Value → String
  | .undefined => "undefined"
  | .null => "object"
  | .bool _ => "boolean"
  | .number _ => "number"
  | .string _ => "string"
  | .object id => if (h.object id).kind.isCallable then "function" else "object"

def summaryText (name message : String) : String :=
  if message.isEmpty then name else name ++ ": " ++ message

def textProperty (h : Heap) (id : ObjectId) (key missing complex : String) : String :=
  match h.get id key with
  | .undefined => missing
  | v => v.text?.getD complex

def errorSummary (h : Heap) (id : ObjectId) : String :=
  summaryText (h.textProperty id "name" "Error" "Error") (h.textProperty id "message" "" "")

def displayWith (h : Heap) (elements : Array Value → String) : Value → String
  | .string s => Text.quote s
  | .object id =>
    match (h.object id).kind with
    | .array items => elements items
    | .closure f _ => "[Function: " ++ (f.name.map Ident.name).getD "anonymous" ++ "]"
    | .native name _ => "[Function: " ++ name ++ "]"
    | .error => h.errorSummary id
    | .plain => "[object Object]"
  | v => v.text?.getD ""

def displayWithin (h : Heap) : Nat → Value → String
  | 0 => h.displayWith fun _ => "[Array]"
  | n + 1 => h.displayWith fun items =>
    "[" ++ ", ".intercalate (items.toList.map (h.displayWithin n)) ++ "]"

/-- How a value is shown to the host; arrays are shown three levels deep. -/
def display (h : Heap) (v : Value) : String :=
  h.displayWithin 3 v

def tag (h : Heap) (id : ObjectId) : String :=
  "[object " ++ (h.object id).kind.className ++ "]"

end Heap

end ScriptEngine
