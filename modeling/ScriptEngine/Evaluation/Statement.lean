import ScriptEngine.Evaluation.Expression

/-!
# Running statements

A statement ends normally, perhaps with a value, or with a jump that some statement around it takes.
Loops are bounded by an argument; the bound is fuel and no behaviour of the program.
-/

namespace ScriptEngine

open Eval

inductive Completion where
  | normal (value : Option Value)
  | leave
  | skip
  | giveBack (value : Value)
deriving Inhabited

namespace Completion

def undefined : Completion :=
  .normal (some .undefined)

def expectNormal (c : Completion) (boundary : Boundary) : Eval Value :=
  match c with
  | .normal value => return value.getD .undefined
  | .leave => throw (.internal (.escaped .leave boundary))
  | .skip => throw (.internal (.escaped .skip boundary))
  | .giveBack _ => throw (.internal (.escaped .giveBack boundary))

end Completion

namespace Eval

def whileLoop (condition : Eval Value) (body : Eval Completion) : Nat → Eval Completion
  | 0 => throw .outOfFuel
  | n + 1 => do
    if (← condition).truthy then
      match ← body with
      | .leave => return .undefined
      | .giveBack v => return .giveBack v
      | .normal _ | .skip => whileLoop condition body n
    else
      return .undefined

def holds : Option (Eval Value) → Eval Bool
  | none => return true
  | some condition => return (← condition).truthy

def forLoop (condition : Option (Eval Value)) (update : Option (Eval Value))
    (body : Eval Completion) : Nat → Eval Completion
  | 0 => throw .outOfFuel
  | n + 1 => do
    if ← holds condition then
      match ← body with
      | .leave => return .undefined
      | .giveBack v => return .giveBack v
      | .normal _ | .skip =>
        match update with
        | some action =>
          let _ ← action
          forLoop condition update body n
        | none => forLoop condition update body n
    else
      return .undefined

def copyInto (source target : ScopeId) : List String → Eval Unit
  | [] => return
  | name :: names => do
    match ← reading fun m => m.scopes.getLocal? source name with
    | some b => declareLocal target name b.value b.kind
    | none => pure ()
    copyInto source target names

def copyBack (source target : ScopeId) (names : List String) (m : Machine) : Machine :=
  names.foldl (fun m name =>
    match m.scopes.getLocal? source name with
    | some b => { m with scopes := m.scopes.overwriteLocal target name b.value }
    | none => m) m

/-- Runs a loop body in a scope of its own that starts with the loop variables and hands them back,
however the body ends. -/
def iteration (names : List String) (body : Eval Completion) : Eval Completion := do
  let loop ← currentScope
  let scope ← addBlock loop
  copyInto loop scope names
  always (inScope scope body) (copyBack scope loop names)

def loopBody (names : List String) (body : Eval Completion) : Eval Completion :=
  if names.isEmpty then body else iteration names body

def catching (body : Eval Completion) (handler : Option (Value → Eval Completion)) :
    Eval Completion := do
  match ← outcome body, handler with
  | .error (.thrown t), some handle => handle t.value
  | ended, _ => resume ended

/-- Runs a last block after an action, however that ended. The action's end counts if the block ends
normally, the block's end otherwise. -/
def finalizing (action : Eval Completion) (last : Option (Eval Completion)) : Eval Completion :=
  match last with
  | none => action
  | some block => do
    match ← outcome action with
    | .error .outOfFuel => throw .outOfFuel
    | ended =>
      match ← block with
      | .normal _ => resume ended
      | jump => return jump

def handling (param : Option Ident) (body : Eval Completion) (thrown : Value) :
    Eval Completion := do
  let scope ← addBlock (← currentScope)
  match param with
  | some p => declareLocal scope p.name thrown .var
  | none => pure ()
  inScope scope (inBlock body)

end Eval

/-- The names a declaration binds anew for each round of a `for`. -/
def Stmt.roundNames : Option Stmt → List String
  | some (.declaration _ kind declarators) =>
    if kind = .var then [] else declarators.map fun (.mk name _) => name.name
  | _ => []

variable (invoke : Invoke) (fuel : Nat)

def Expr.evalIfAny : Option Expr → Option (Eval Value)
  | none => none
  | some e => some (e.eval invoke)

def Declarator.run (kind : BindingKind) : Declarator → Eval Unit
  | .mk name init =>
    match kind, init with
    | .var, some e => do
      let v ← e.eval invoke
      Eval.assign name.name v
    | .var, none => Eval.declareVar name.name
    | .const, none => throwNamed .syntaxError "Missing initializer in const declaration"
    | kind, some e => do
      let v ← e.eval invoke
      Eval.declare name.name v kind
    | kind, none => Eval.declare name.name .undefined kind

def Declarator.runAll (kind : BindingKind) : List Declarator → Eval Unit
  | [] => return
  | d :: ds => do
    d.run invoke kind
    Declarator.runAll kind ds

/-- Whether an arm is run: once an arm has matched, if it is the default, or if its test equals the
value. -/
def SwitchCase.reached (v : Value) : Bool → Option Expr → Eval Bool
  | true, _ | false, none => return true
  | false, some test => return (← test.eval invoke).strictEquals v

mutual

def Stmt.run : Stmt → Eval Completion
  | .expression _ e => return .normal (some (← e.eval invoke))
  | .declaration _ kind declarators => do
    Declarator.runAll invoke kind declarators
    return .undefined
  | .function _ name f => do
    let v ← newFunction f (← currentScope)
    Eval.declare name.name v .var
    return .undefined
  | .block _ body => inBlock body.runBody
  | .branch _ condition yes no => do
    if (← condition.eval invoke).truthy then yes.run else Stmt.runIfAny no
  | .whileLoop _ condition body => Eval.whileLoop (condition.eval invoke) body.run fuel
  | .forLoop _ init condition update body =>
    inBlock do
      let _ ← Stmt.runIfAny init
      Eval.forLoop (Expr.evalIfAny invoke condition) (Expr.evalIfAny invoke update)
        (loopBody (Stmt.roundNames init) body.run) fuel
  | .switch _ discriminant cases => do
    let v ← discriminant.eval invoke
    inBlock (SwitchCase.runArms v false cases)
  | .breakLoop _ => return .leave
  | .continueLoop _ => return .skip
  | .raise _ e => do
    let v ← e.eval invoke
    throwValue v
  | .attempt _ body handler finalizer =>
    finalizing (catching (inBlock body.runBody) (Handler.runIfAny handler))
      (Block.runIfAny finalizer)
  | .giveBack _ none => return .giveBack .undefined
  | .giveBack _ (some e) => return .giveBack (← e.eval invoke)
  | .empty _ => return .normal none
termination_by structural s => s

def Stmt.runIfAny : Option Stmt → Eval Completion
  | none => return .undefined
  | some s => s.run
termination_by structural s => s

def Stmt.runAll (last : Option Value) : List Stmt → Eval Completion
  | [] => return .normal last
  | s :: ss => do
    match ← s.run with
    | .normal (some v) => Stmt.runAll (some v) ss
    | .normal none => Stmt.runAll last ss
    | jump => return jump
termination_by structural ss => ss

def Block.runBody : Block → Eval Completion
  | .mk _ statements => Stmt.runAll none statements
termination_by structural b => b

def Block.runIfAny : Option Block → Option (Eval Completion)
  | none => none
  | some b => some (inBlock b.runBody)
termination_by structural b => b

def Handler.runIfAny : Option Handler → Option (Value → Eval Completion)
  | none => none
  | some (.mk param body) => some fun v => handling param body.runBody v
termination_by structural h => h

def SwitchCase.runArms (v : Value) (matched : Bool) : List SwitchCase → Eval Completion
  | [] => return .undefined
  | .mk test body :: cases => do
    let matched ← SwitchCase.reached invoke v matched test
    if matched then
      match ← Stmt.runAll none body with
      | .normal _ => SwitchCase.runArms v matched cases
      | .leave => return .undefined
      | jump => return jump
    else
      SwitchCase.runArms v matched cases
termination_by structural cs => cs

end

end ScriptEngine
