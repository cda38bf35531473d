import ScriptEngine.Heap.Basic
import ScriptEngine.Scope
import ScriptEngine.Text.Units

/-!
# The machine

The state a program runs in: the heap, the scopes, the current scope, the active calls, and the
arrays that are being joined. A run ends with a result or a fault, and with a state in both cases.
-/

namespace ScriptEngine

structure Frame where
  name : String
  line : Nat
  column : Nat
deriving DecidableEq, Inhabited

def Frame.render (f : Frame) : String :=
  "at " ++ f.name ++ " [" ++ toString f.line ++ ":" ++ toString f.column ++ "]"

inductive Jump where
  | leave
  | skip
  | giveBack
deriving DecidableEq, Inhabited

def Jump.word : Jump → String
  | .leave => "break"
  | .skip => "continue"
  | .giveBack => "return"

inductive Boundary where
  | program
  | functionBody
deriving DecidableEq, Inhabited

def Boundary.text : Boundary → String
  | .program => "program"
  | .functionBody => "function body"

/-- A broken rule of the machine itself, which programs cannot catch. -/
inductive InternalCause where
  | escaped (jump : Jump) (boundary : Boundary)
  | notCallable
  | host (message : String)
deriving DecidableEq, Inhabited

def InternalCause.message : InternalCause → String
  | .escaped jump boundary => "illegal " ++ jump.word ++ " escaped the " ++ boundary.text
  | .notCallable => "invoked a non-callable object"
  | .host message => message

structure Thrown where
  value : Value
  stack : List Frame
deriving Inhabited

namespace Thrown

def message (t : Thrown) (h : Heap) : String :=
  match t.value with
  | .string s => s
  | .object id =>
    match (h.object id).kind with
    | .error => h.errorSummary id
    | _ => h.display t.value
  | v => h.display v

def errorName? (t : Thrown) (h : Heap) : Option String :=
  match t.value with
  | .object id =>
    match (h.object id).kind with
    | .error => (h.get id "name").text?
    | _ => none
  | _ => none

def render (t : Thrown) (h : Heap) : String :=
  t.message h ++ String.join (t.stack.map fun f => "\n    " ++ f.render)

end Thrown

/-- How a run can fail. Being out of fuel is no behaviour of the program: with enough fuel it does
not happen. -/
inductive Failure where
  | thrown (t : Thrown)
  | internal (cause : InternalCause)
  | outOfFuel
deriving Inhabited

def internalText (message : String) : String :=
  "internal error: " ++ message

def Failure.render (f : Failure) (h : Heap) : String :=
  match f with
  | .thrown t => t.render h
  | .internal cause => internalText cause.message
  | .outOfFuel => "out of fuel"

structure Machine where
  heap : Heap
  scopes : ScopeTree
  current : ScopeId
  /-- Active calls, innermost first. -/
  frames : List Frame
  /-- Arrays being joined, innermost first. -/
  joining : List ObjectId
  maxCallDepth : Option UInt64
deriving Inhabited

/-- The built-in prototypes; each is the object with its number in this list. -/
inductive Proto where
  | object
  | function
  | array
  | string
  | number
  | boolean
  | error
deriving DecidableEq, Inhabited

namespace Proto

def all : List Proto :=
  [.object, .function, .array, .string, .number, .boolean, .error]

def id : Proto → ObjectId
  | .object => 0
  | .function => 1
  | .array => 2
  | .string => 3
  | .number => 4
  | .boolean => 5
  | .error => 6

def name : Proto → String
  | .object => "Object"
  | .function => "Function"
  | .array => "Array"
  | .string => "String"
  | .number => "Number"
  | .boolean => "Boolean"
  | .error => "Error"

def ofId? (id : ObjectId) : Option Proto :=
  all[id]?

end Proto

abbrev Eval := EStateM Failure Machine

namespace Eval

@[inline] def reading {α : Type} (f : Machine → α) : Eval α :=
  fun m => .ok (f m) m

@[inline] def always {α : Type} (action : Eval α) (after : Machine → Machine) : Eval α :=
  fun m =>
    match action m with
    | .ok a m => .ok a (after m)
    | .error e m => .error e (after m)

@[inline] def outcome {α : Type} (action : Eval α) : Eval (Except Failure α) :=
  fun m =>
    match action m with
    | .ok a m => .ok (.ok a) m
    | .error e m => .ok (.error e) m

def resume {α : Type} : Except Failure α → Eval α
  | .ok a => pure a
  | .error e => throw e

theorem bind_of_ok {α β : Type} {x : Eval α} {f : α → Eval β} {a : α} {m m' : Machine}
    (h : x m = .ok a m') : (x >>= f) m = f a m' := by
  simp only [bind, EStateM.bind, h]

def alloc (o : Object) : Eval ObjectId :=
  fun m => .ok m.heap.size { m with heap := m.heap.alloc o }

def addScope (s : Scope) : Eval ScopeId :=
  fun m => .ok m.scopes.size { m with scopes := m.scopes.add s }

def addBlock (parent : ScopeId) : Eval ScopeId :=
  addScope (.block parent)

def currentScope : Eval ScopeId :=
  reading (·.current)

def inScope {α : Type} (id : ScopeId) (action : Eval α) : Eval α :=
  fun m =>
    let before := m.current
    always action (fun m => { m with current := before }) { m with current := id }

def inBlock {α : Type} (action : Eval α) : Eval α := do
  let id ← addBlock (← currentScope)
  inScope id action

def newPlain : Eval ObjectId :=
  alloc (.bare .plain (some Proto.object.id))

def newArray (items : Array Value) : Eval Value := do
  return .object (← alloc (.bare (.array items) (some Proto.array.id)))

def newError (name message : String) : Eval Value := do
  let o := Object.bare .error (some Proto.error.id)
  return .object (← alloc ((o.define "name" (.string name)).define "message" (.string message)))

def throwValue {α : Type} (v : Value) : Eval α := do
  throw (.thrown ⟨v, ← reading (·.frames)⟩)

def throwNamed {α : Type} (c : ErrorClass) (message : String) : Eval α := do
  throwValue (← newError c.name message)

def throwScopeError {α : Type} (e : ScopeError) : Eval α :=
  throwNamed e.errorClass e.message

def lookup (name : String) : Eval Value := do
  match ← reading fun m => m.scopes.get m.current name with
  | .ok v => return v
  | .error e => throwScopeError e

def assign (name : String) (value : Value) : Eval Unit := do
  match ← reading fun m => m.scopes.assignee m.current name with
  | .ok (holder, kind) =>
    modify fun m => { m with scopes := m.scopes.put holder name ⟨value, kind⟩ }
  | .error e => throwScopeError e

def declareLocal (id : ScopeId) (name : String) (value : Value) (kind : BindingKind) :
    Eval Unit := do
  if ← reading fun m => m.scopes.refuses id name kind then
    throwScopeError (.alreadyDeclared name)
  else
    modify fun m => { m with scopes := m.scopes.put id name ⟨value, kind⟩ }

def declare (name : String) (value : Value) (kind : BindingKind) : Eval Unit := do
  declareLocal (← reading fun m => m.scopes.declarationScope m.current kind) name value kind

def declareVar (name : String) : Eval Unit := do
  unless ← reading fun m => m.scopes.varScopeHas m.current name do
    declare name .undefined .var

def define (id : ObjectId) (key : String) (value : Value) : Eval Unit :=
  modify fun m => { m with heap := m.heap.define id key value }

/-- A property of any value: objects answer for themselves, strings for their length and units, and
all primitives for their prototypes. -/
def propertyOf (h : Heap) (base : Value) (key : String) : Value :=
  match base with
  | .object id => h.get id key
  | .string s =>
    if key = "length" then .ofNat (Text.unitLength s)
    else
      match arrayIndex? key with
      | some i =>
        match Text.unitAt? i s.toList with
        | some u => .string (Text.ofUnits [u])
        | none => .undefined
      | none => h.get Proto.string.id key
  | .number _ => h.get Proto.number.id key
  | .bool _ => h.get Proto.boolean.id key
  | .undefined | .null => .undefined

def getProperty (base : Value) (key : String) : Eval Value :=
  reading fun m => propertyOf m.heap base key

/-- Writes under a key of an object; a length that is no array length throws. -/
def writeProperty (id : ObjectId) (key : String) (value : Value) : Eval Unit := do
  match ← reading fun m => (m.heap.object id).slot? key value with
  | some slot => modify fun m => { m with heap := m.heap.write id slot key value }
  | none => throwNamed .rangeError invalidLengthMessage

def elements? (v : Value) : Eval (Option (Array Value)) :=
  reading fun m =>
    match v with
    | .object id => (m.heap.object id).elements?
    | _ => none

def newFunction (f : Function) (scope : ScopeId) : Eval Value := do
  let prototype ← newPlain
  let o := Object.bare (.closure f scope) (some Proto.function.id)
  return .object (← alloc (o.define "prototype" (.object prototype)))

end Eval

end ScriptEngine
