import ScriptEngine.Evaluation.Call

/-!
# Other ways to evaluate

The evaluator with given ways to look a name up and to run a last block after an action. Nothing
else differs, so with the evaluator's own ways it is the evaluator. The body of a closure may be run
in other ways than the code around its call; what they are is chosen by the scope it was made in.
-/

namespace ScriptEngine

open Eval

/-- A way to look names up, and a way to run a last block after an action. The last block is given
as it runs in these ways and as the evaluator runs it. -/
structure Ways where
  look : String → Eval Value
  finish : (action last plain : Eval Completion) → Eval Completion

namespace Ways

def own : Ways where
  look := lookup
  finish action last _ := finalizing action (some last)

def looking (look : String → Eval Value) : Ways :=
  { own with look := look }

def finishing (finish : (action last plain : Eval Completion) → Eval Completion) : Ways :=
  { own with finish := finish }

end Ways

def Place.readWith (ways : Ways) : Place → Eval Value
  | .binding name => ways.look name
  | .property base key => getProperty base key

variable (ways : Ways) (invoke : Invoke) (fuel : Nat)

mutual

def Expr.evalWith : Expr → Eval Value
  | .array _ items => do
    let values ← Expr.evalListWith items
    newArray values.toArray
  | .object _ fields => do
    let id ← newPlain
    Field.evalIntoWith id fields
    return .object id
  | .identifier _ name => ways.look name
  | .binary _ op left right => do
    let a ← left.evalWith
    let b ← right.evalWith
    Eval.binary invoke op a b
  | .logical _ op left right => do
    let a ← left.evalWith
    match op with
    | .and => if a.truthy then right.evalWith else return a
    | .or => if a.truthy then return a else right.evalWith
  | .coalesce _ left right => do
    let a ← left.evalWith
    if a.isNullish then right.evalWith else return a
  | .unary o .typeOf (.identifier o' name) =>
    (Expr.unary o .typeOf (.identifier o' name)).eval invoke
  | .unary _ op operand => do
    let v ← operand.evalWith
    Eval.unary invoke op v
  | .update _ op side target => do
    let place ← target.resolveWith
    let current ← place.readWith ways
    updateAt invoke op side place current
  | .assign _ target value => do
    let place ← target.resolveWith
    let v ← value.evalWith
    place.write invoke v
    return v
  | .compound _ op target value => do
    let place ← target.resolveWith
    let current ← place.readWith ways
    let operand ← value.evalWith
    let v ← Eval.binary invoke op current operand
    place.write invoke v
    return v
  | .conditional _ test yes no => do
    if (← test.evalWith).truthy then yes.evalWith else no.evalWith
  | .member _ object property => do
    let base ← object.evalWith
    let key ← property.keyWith
    checkBase .read base key object.text
    getProperty base key
  | .call o (.member callee object property) args => do
    let base ← object.evalWith
    let key ← property.keyWith
    checkBase .read base key object.text
    let f ← getProperty base key
    let values ← Expr.evalListWith args
    callAt invoke o callee.text f base values
  | .call o callee args => do
    let f ← callee.evalWith
    let values ← Expr.evalListWith args
    callAt invoke o callee.text f .undefined values
  | .construct o callee args => do
    let f ← callee.evalWith
    let values ← Expr.evalListWith args
    constructAt invoke o callee.text f values
  -- an expression without names to look up
  | e => e.eval invoke
termination_by structural e => e

def Expr.evalListWith : List Expr → Eval (List Value)
  | [] => return []
  | e :: es => do
    let v ← e.evalWith
    let vs ← Expr.evalListWith es
    return v :: vs
termination_by structural es => es

def Field.evalIntoWith (id : ObjectId) : List Field → Eval Unit
  | [] => return
  | .mk key value :: fields => do
    let v ← value.evalWith
    Eval.define id key v
    Field.evalIntoWith id fields
termination_by structural fields => fields

def Property.keyWith : Property → Eval String
  | .named name => return name.name
  | .computed e => do
    let v ← e.evalWith
    toKey invoke v
termination_by structural p => p

def Target.resolveWith : Target → Eval Place
  | .name name => return .binding name.name
  | .member object property => do
    let base ← object.evalWith
    let key ← property.keyWith
    checkBase .write base key object.text
    return .property base key
termination_by structural t => t

end

def Expr.evalIfAnyWith : Option Expr → Option (Eval Value)
  | none => none
  | some e => some (e.evalWith ways invoke)

def Declarator.runWith (kind : BindingKind) : Declarator → Eval Unit
  | .mk name none => (Declarator.mk name none).run invoke kind
  | .mk name (some e) => do
    let v ← e.evalWith ways invoke
    match kind with
    | .var => Eval.assign name.name v
    | kind => Eval.declare name.name v kind

def Declarator.runAllWith (kind : BindingKind) : List Declarator → Eval Unit
  | [] => return
  | d :: ds => do
    d.runWith ways invoke kind
    Declarator.runAllWith kind ds

def SwitchCase.reachedWith (v : Value) : Bool → Option Expr → Eval Bool
  | true, _ | false, none => return true
  | false, some test => return (← test.evalWith ways invoke).strictEquals v

mutual

def Stmt.runWith : Stmt → Eval Completion
  | .expression _ e => return .normal (some (← e.evalWith ways invoke))
  | .declaration _ kind declarators => do
    Declarator.runAllWith ways invoke kind declarators
    return .undefined
  | .block _ body => inBlock body.runBodyWith
  | .branch _ condition yes no => do
    if (← condition.evalWith ways invoke).truthy then yes.runWith else Stmt.runIfAnyWith no
  | .whileLoop _ condition body =>
    Eval.whileLoop (condition.evalWith ways invoke) body.runWith fuel
  | .forLoop _ init condition update body =>
    inBlock do
      let _ ← Stmt.runIfAnyWith init
      Eval.forLoop (Expr.evalIfAnyWith ways invoke condition)
        (Expr.evalIfAnyWith ways invoke update) (loopBody (Stmt.roundNames init) body.runWith) fuel
  | .switch _ discriminant cases => do
    let v ← discriminant.evalWith ways invoke
    inBlock (SwitchCase.runArmsWith v false cases)
  | .raise _ e => do
    let v ← e.evalWith ways invoke
    throwValue v
  | .attempt _ body handler finalizer =>
    Block.finishWith (catching (inBlock body.runBodyWith) (Handler.runIfAnyWith handler)) finalizer
  | .giveBack _ (some e) => return .giveBack (← e.evalWith ways invoke)
  -- a statement with nothing to evaluate
  | s => s.run invoke fuel
termination_by structural s => s

def Stmt.runIfAnyWith : Option Stmt → Eval Completion
  | none => return .undefined
  | some s => s.runWith
termination_by structural s => s

def Stmt.runAllWith (last : Option Value) : List Stmt → Eval Completion
  | [] => return .normal last
  | s :: ss => do
    match ← s.runWith with
    | .normal (some v) => Stmt.runAllWith (some v) ss
    | .normal none => Stmt.runAllWith last ss
    | jump => return jump
termination_by structural ss => ss

def Block.runBodyWith : Block → Eval Completion
  | .mk _ statements => Stmt.runAllWith none statements
termination_by structural b => b

def Block.finishWith (action : Eval Completion) : Option Block → Eval Completion
  | none => action
  | some b =>
    ways.finish action (inBlock b.runBodyWith) (inBlock (b.runBody (Eval.invoke fuel) fuel))
termination_by structural b => b

def Handler.runIfAnyWith : Option Handler → Option (Value → Eval Completion)
  | none => none
  | some (.mk param body) => some fun v => handling param body.runBodyWith v
termination_by structural h => h

def SwitchCase.runArmsWith (v : Value) (matched : Bool) : List SwitchCase → Eval Completion
  | [] => return .undefined
  | .mk test body :: cases => do
    let matched ← SwitchCase.reachedWith ways invoke v matched test
    if matched then
      match ← Stmt.runAllWith none body with
      | .normal _ => SwitchCase.runArmsWith v matched cases
      | .leave => return .undefined
      | jump => return jump
    else
      SwitchCase.runArmsWith v matched cases
termination_by structural cs => cs

end

namespace Eval

def runBodyWith (statements : List Stmt) : Eval Completion := do
  Stmt.hoistAll statements
  Stmt.runAllWith ways invoke fuel none statements

def callClosureWith (f : Function) (home : ScopeId) (receiver : Value) (args : List Value) :
    Eval Value := do
  let scope ← addScope (.function home receiver)
  bindParams scope f.params args
  bodyResult (← inScope scope (runBodyWith ways invoke fuel f.body.statements))

end Eval

/-- Which ways the body of a closure takes, by the scope that it was made in. -/
abbrev Ways.Choice : Type :=
  Machine → ScopeId → Ways

namespace Eval

variable (choice : Ways.Choice)

def activationWith (id : ObjectId) (receiver : Value) (args : List Value) : Eval Value := do
  match ← reading fun m => (m.heap.object id).kind with
  | .closure f home =>
    let ways ← reading fun m => choice m home
    callClosureWith ways invoke fuel f home receiver args
  | .native _ native => native.run invoke receiver args
  | _ => throw (.internal .notCallable)

def invokeWith : Nat → Invoke
  | 0 => fun _ _ _ _ => throw .outOfFuel
  | fuel + 1 => fun id receiver args frame =>
    entering frame (activationWith (invokeWith fuel) fuel choice id receiver args)

def runProgramInWays (program : Block) : Eval Value := do
  modify fun m => { m with current := 0, frames := [], joining := [] }
  let completion ← runBodyWith ways (invokeWith (fun _ _ => ways) fuel) fuel program.statements
  completion.expectNormal .program

end Eval

end ScriptEngine
