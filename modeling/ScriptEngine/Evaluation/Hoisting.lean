import ScriptEngine.Machine

/-!
# Hoisting

Before a body runs, its function declarations and `var` names are bound, at any depth of statements
but not inside nested functions. A function is bound to its last declaration.
-/

namespace ScriptEngine

open Eval

def Declarator.hoistAll : List Declarator → Eval Unit
  | [] => return
  | .mk name _ :: ds => do
    Eval.declareVar name.name
    Declarator.hoistAll ds

mutual

def Stmt.hoist : Stmt → Eval Unit
  | .function _ name f => do
    let v ← newFunction f (← currentScope)
    Eval.declare name.name v .var
  | .declaration _ .var declarators => Declarator.hoistAll declarators
  | .block _ (.mk _ statements) => Stmt.hoistAll statements
  | .branch _ _ yes no => do
    yes.hoist
    Stmt.hoistIfAny no
  | .whileLoop _ _ body => body.hoist
  | .forLoop _ init _ _ body => do
    Stmt.hoistIfAny init
    body.hoist
  | .switch _ _ cases => SwitchCase.hoistAll cases
  | .attempt _ (.mk _ statements) handler finalizer => do
    Stmt.hoistAll statements
    Handler.hoistIfAny handler
    Block.hoistIfAny finalizer
  | _ => return
termination_by structural s => s

def Stmt.hoistAll : List Stmt → Eval Unit
  | [] => return
  | s :: ss => do
    s.hoist
    Stmt.hoistAll ss
termination_by structural ss => ss

def Stmt.hoistIfAny : Option Stmt → Eval Unit
  | none => return
  | some s => s.hoist
termination_by structural s => s

def SwitchCase.hoistAll : List SwitchCase → Eval Unit
  | [] => return
  | .mk _ body :: cases => do
    Stmt.hoistAll body
    SwitchCase.hoistAll cases
termination_by structural cs => cs

def Handler.hoistIfAny : Option Handler → Eval Unit
  | none => return
  | some (.mk _ (.mk _ statements)) => Stmt.hoistAll statements
termination_by structural h => h

def Block.hoistIfAny : Option Block → Eval Unit
  | none => return
  | some (.mk _ statements) => Stmt.hoistAll statements
termination_by structural b => b

end

end ScriptEngine
