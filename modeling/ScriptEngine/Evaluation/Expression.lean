import ScriptEngine.Evaluation.Coercion

/-!
# Evaluating expressions

Evaluation follows the tree; only calls leave it, through the argument that makes them. Operands are
evaluated from left to right. An assignment resolves its target before it evaluates its value.
-/

namespace ScriptEngine

open Eval

inductive Place where
  | binding (name : String)
  | property (base : Value) (key : String)

inductive Access where
  | read
  | write

def Access.word : Access → String
  | .read => "read"
  | .write => "set"

namespace Place

def read : Place → Eval Value
  | .binding name => Eval.lookup name
  | .property base key => getProperty base key

def write (invoke : Invoke) (place : Place) (value : Value) : Eval Unit :=
  match place with
  | .binding name => Eval.assign name value
  | .property base key => setProperty invoke base key value

end Place

namespace Eval

/-- Refuses a member access on null and undefined. `source` is the text of the base expression. -/
def checkBase (access : Access) (base : Value) (key source : String) : Eval Unit := do
  if base.isNullish then
    let shown ← reading fun m => m.heap.display base
    throwNamed .typeError
      ("Cannot " ++ access.word ++ " property '" ++ key ++ "' of " ++ shown ++ " (at '" ++ source ++
        "')")

/-- A function as a value of the current scope. A named one sees its name in a scope of its own. -/
def functionValue (f : Function) : Eval Value := do
  match f.name with
  | none => newFunction f (← currentScope)
  | some name =>
    let scope ← addBlock (← currentScope)
    let value ← newFunction f scope
    declareLocal scope name.name value .var
    return value

variable (invoke : Invoke)

def unary (op : UnaryOp) (v : Value) : Eval Value := do
  match op with
  | .not => return .bool (!v.truthy)
  | .neg => return .number (-(← toNumber invoke v))
  | .plus => return .number (← toNumber invoke v)
  | .bitNot => return .ofInt (~~~ Numeric.toSignedWord (← toNumber invoke v)).toInt
  | .typeOf => return .string (← reading fun m => m.heap.typeOf v)

def callAt (o : Origin) (source : String) (callee receiver : Value) (args : List Value) :
    Eval Value := do
  match ← reading fun m => m.heap.callable? callee with
  | none => throwNamed .typeError (source ++ " is not a function")
  | some id =>
    let name ← reading fun m => functionName m.heap id
    invoke id receiver args ⟨name, o.span.line, o.span.column⟩

/-- Constructs with a function of the program: a fresh object of its `prototype` is the receiver,
and the result unless the function returns an object. -/
def constructWith (id : ObjectId) (args : List Value) (frame : Frame) : Eval Value := do
  let prototype ← reading fun m =>
    match m.heap.get id "prototype" with
    | .object p => p
    | _ => Proto.object.id
  let fresh := Value.object (← alloc (.bare .plain (some prototype)))
  let result ← invoke id fresh args frame
  return if result.isObject then result else fresh

def constructAt (o : Origin) (source : String) (callee : Value) (args : List Value) :
    Eval Value := do
  match ← reading fun m => m.heap.callable? callee with
  | none => throwNamed .typeError (source ++ " is not a constructor")
  | some id =>
    let name ← reading fun m => functionName m.heap id
    let frame : Frame := ⟨name ++ " (constructor)", o.span.line, o.span.column⟩
    match ← reading fun m => (m.heap.object id).kind with
    | .closure .. => constructWith invoke id args frame
    | _ => invoke id .undefined args frame

/-- Adds one to the value of a place or subtracts it, and yields the new number or the old one. -/
def updateAt (op : UpdateOp) (side : Side) (place : Place) (current : Value) : Eval Value := do
  let old ← toNumber invoke current
  let new := match op with
    | .increment => old + 1
    | .decrement => old - 1
  place.write invoke (.number new)
  match side with
  | .before => return .number new
  | .after => return .number old

end Eval

variable (invoke : Invoke)

mutual

def Expr.eval : Expr → Eval Value
  | .number _ value => return .number value
  | .string _ value => return .string value
  | .bool _ value => return .bool value
  | .null _ => return .null
  | .array _ items => do
    let values ← Expr.evalList items
    newArray values.toArray
  | .object _ fields => do
    let id ← newPlain
    Field.evalInto id fields
    return .object id
  | .function _ f => functionValue f
  | .identifier _ name => Eval.lookup name
  | .this _ => reading fun m => m.scopes.receiver m.current
  | .binary _ op left right => do
    let a ← left.eval
    let b ← right.eval
    Eval.binary invoke op a b
  | .logical _ op left right => do
    let a ← left.eval
    match op with
    | .and => if a.truthy then right.eval else return a
    | .or => if a.truthy then return a else right.eval
  | .coalesce _ left right => do
    let a ← left.eval
    if a.isNullish then right.eval else return a
  | .unary _ .typeOf (.identifier _ name) => do
    let v ← reading fun m => (m.scopes.lookup? m.current name).getD .undefined
    Eval.unary invoke .typeOf v
  | .unary _ op operand => do
    let v ← operand.eval
    Eval.unary invoke op v
  | .update _ op side target => do
    let place ← target.resolve
    let current ← place.read
    updateAt invoke op side place current
  | .assign _ target value => do
    let place ← target.resolve
    let v ← value.eval
    place.write invoke v
    return v
  | .compound _ op target value => do
    let place ← target.resolve
    let current ← place.read
    let operand ← value.eval
    let v ← Eval.binary invoke op current operand
    place.write invoke v
    return v
  | .conditional _ test yes no => do
    if (← test.eval).truthy then yes.eval else no.eval
  | .member _ object property => do
    let base ← object.eval
    let key ← property.key
    checkBase .read base key object.text
    getProperty base key
  | .call o (.member callee object property) args => do
    let base ← object.eval
    let key ← property.key
    checkBase .read base key object.text
    let f ← getProperty base key
    let values ← Expr.evalList args
    callAt invoke o callee.text f base values
  | .call o callee args => do
    let f ← callee.eval
    let values ← Expr.evalList args
    callAt invoke o callee.text f .undefined values
  | .construct o callee args => do
    let f ← callee.eval
    let values ← Expr.evalList args
    constructAt invoke o callee.text f values
termination_by structural e => e

def Expr.evalList : List Expr → Eval (List Value)
  | [] => return []
  | e :: es => do
    let v ← e.eval
    let vs ← Expr.evalList es
    return v :: vs
termination_by structural es => es

def Field.evalInto (id : ObjectId) : List Field → Eval Unit
  | [] => return
  | .mk key value :: fields => do
    let v ← value.eval
    Eval.define id key v
    Field.evalInto id fields
termination_by structural fields => fields

def Property.key : Property → Eval String
  | .named name => return name.name
  | .computed e => do
    let v ← e.eval
    toKey invoke v
termination_by structural p => p

def Target.resolve : Target → Eval Place
  | .name name => return .binding name.name
  | .member object property => do
    let base ← object.eval
    let key ← property.key
    checkBase .write base key object.text
    return .property base key
termination_by structural t => t

end

end ScriptEngine
