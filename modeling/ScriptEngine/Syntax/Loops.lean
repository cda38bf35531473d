import ScriptEngine.Syntax.Functions

/-!
# Loops in a tree

The loops of a body, in source order. Loops inside the body of a function belong to that function
and are left out, so a program is free of loops if all its functions are, too.
-/

namespace ScriptEngine

mutual

def Block.loops : Block → List Stmt
  | .mk _ statements => Stmt.loopsOf statements
termination_by structural b => b

def Block.loopsIfAny : Option Block → List Stmt
  | none => []
  | some b => b.loops
termination_by structural b => b

def Stmt.loops : Stmt → List Stmt
  | .block _ body => body.loops
  | .branch _ _ yes no => yes.loops ++ Stmt.loopsIfAny no
  | .whileLoop o condition body => .whileLoop o condition body :: body.loops
  | .forLoop o init condition update body =>
    .forLoop o init condition update body :: (Stmt.loopsIfAny init ++ body.loops)
  | .switch _ _ cases => SwitchCase.loopsOf cases
  | .attempt _ body handler finalizer =>
    body.loops ++ Handler.loopsIfAny handler ++ Block.loopsIfAny finalizer
  | .expression .. | .declaration .. | .function .. | .breakLoop _ | .continueLoop _ | .raise ..
  | .giveBack .. | .empty _ => []
termination_by structural s => s

def Stmt.loopsOf : List Stmt → List Stmt
  | [] => []
  | s :: ss => s.loops ++ Stmt.loopsOf ss
termination_by structural ss => ss

def Stmt.loopsIfAny : Option Stmt → List Stmt
  | none => []
  | some s => s.loops
termination_by structural s => s

def SwitchCase.loopsOf : List SwitchCase → List Stmt
  | [] => []
  | .mk _ body :: cases => Stmt.loopsOf body ++ SwitchCase.loopsOf cases
termination_by structural cs => cs

def Handler.loopsIfAny : Option Handler → List Stmt
  | none => []
  | some (.mk _ body) => body.loops
termination_by structural h => h

end

inductive Function.LoopFree : Function → Prop where
  | intro {f : Function} (hbody : f.body.loops = [])
      (hinner : ∀ g ∈ f.body.functions, g.LoopFree) : f.LoopFree

structure Block.LoopFree (program : Block) : Prop where
  loops : program.loops = []
  functions : ∀ f ∈ program.functions, f.LoopFree

end ScriptEngine
