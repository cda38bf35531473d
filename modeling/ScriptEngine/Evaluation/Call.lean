import ScriptEngine.Evaluation.Hoisting
import ScriptEngine.Evaluation.Natives
import ScriptEngine.Evaluation.Statement

/-!
# Calls and programs

A call runs on fuel, which it hands on with one less to the calls it makes, and which also bounds
the rounds of its loops. The call stack is checked against the limit before a frame is pushed, and
the frame is popped however the call ends.
-/

namespace ScriptEngine

namespace Eval

def runBody (invoke : Invoke) (fuel : Nat) (statements : List Stmt) : Eval Completion := do
  Stmt.hoistAll statements
  Stmt.runAll invoke fuel none statements

def bindParams (scope : ScopeId) : List Ident → List Value → Eval Unit
  | [], _ => return
  | p :: ps, args => do
    declareLocal scope p.name (args.headD .undefined) .var
    bindParams scope ps args.tail

def bodyResult : Completion → Eval Value
  | .giveBack v => return v
  | .normal _ => return .undefined
  | jump => jump.expectNormal .functionBody

def callClosure (invoke : Invoke) (fuel : Nat) (f : Function) (home : ScopeId) (receiver : Value)
    (args : List Value) : Eval Value := do
  let scope ← addScope (.function home receiver)
  bindParams scope f.params args
  bodyResult (← inScope scope (runBody invoke fuel f.body.statements))

def atCallLimit (m : Machine) : Bool :=
  match m.maxCallDepth with
  | some limit => limit.toNat ≤ m.frames.length
  | none => false

def inFrame (frame : Frame) (action : Eval Value) : Eval Value := do
  modify fun m => { m with frames := frame :: m.frames }
  always action fun m => { m with frames := m.frames.tail }

def entering (frame : Frame) (action : Eval Value) : Eval Value := do
  if ← reading atCallLimit then
    throwNamed .rangeError "Maximum call stack size exceeded"
  else
    inFrame frame action

def activation (invoke : Invoke) (fuel : Nat) (id : ObjectId) (receiver : Value)
    (args : List Value) : Eval Value := do
  match ← reading fun m => (m.heap.object id).kind with
  | .closure f home => callClosure invoke fuel f home receiver args
  | .native _ native => native.run invoke receiver args
  | _ => throw (.internal .notCallable)

def invoke : Nat → Invoke
  | 0 => fun _ _ _ _ => throw .outOfFuel
  | fuel + 1 => fun id receiver args frame =>
    entering frame (activation (invoke fuel) fuel id receiver args)

def runProgramWith (invoke : Invoke) (fuel : Nat) (program : Block) : Eval Value := do
  modify fun m => { m with current := 0, frames := [], joining := [] }
  let completion ← runBody invoke fuel program.statements
  completion.expectNormal .program

def runProgram (fuel : Nat) (program : Block) : Eval Value :=
  runProgramWith (invoke fuel) fuel program

end Eval

end ScriptEngine
