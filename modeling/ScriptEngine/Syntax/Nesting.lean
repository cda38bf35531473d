import ScriptEngine.Syntax.Functions

/-!
# Nesting of jumps

A jump needs something around it that takes it: `break` a loop or a switch, `continue` a loop, and
`return` a function. Only what is in the same body counts, so bodies of functions start anew.
-/

namespace ScriptEngine

/-- What is around a statement in the same body. -/
structure Surroundings where
  inLoop : Bool
  inSwitch : Bool
  inFunction : Bool
deriving DecidableEq, Inhabited

namespace Surroundings

def program : Surroundings := ⟨false, false, false⟩

def functionBody : Surroundings := ⟨false, false, true⟩

def enterLoop (c : Surroundings) : Surroundings := { c with inLoop := true }

def enterSwitch (c : Surroundings) : Surroundings := { c with inSwitch := true }

end Surroundings

mutual

def Block.takesJumps : Surroundings → Block → Bool
  | c, .mk _ statements => Stmt.takeJumps c statements
termination_by structural _ b => b

def Block.takesJumpsIfAny : Surroundings → Option Block → Bool
  | _, none => true
  | c, some b => b.takesJumps c
termination_by structural _ b => b

def Stmt.takesJumps : Surroundings → Stmt → Bool
  | c, .breakLoop _ => c.inLoop || c.inSwitch
  | c, .continueLoop _ => c.inLoop
  | c, .giveBack _ _ => c.inFunction
  | c, .block _ body => body.takesJumps c
  | c, .branch _ _ yes no => yes.takesJumps c && Stmt.takesJumpsIfAny c no
  | c, .whileLoop _ _ body => body.takesJumps c.enterLoop
  | c, .forLoop _ init _ _ body =>
    Stmt.takesJumpsIfAny c.enterLoop init && body.takesJumps c.enterLoop
  | c, .switch _ _ cases => SwitchCase.takeJumps c.enterSwitch cases
  | c, .attempt _ body handler finalizer =>
    body.takesJumps c && Handler.takesJumpsIfAny c handler && Block.takesJumpsIfAny c finalizer
  | _, .expression .. | _, .declaration .. | _, .function .. | _, .raise .. | _, .empty _ => true
termination_by structural _ s => s

def Stmt.takeJumps : Surroundings → List Stmt → Bool
  | _, [] => true
  | c, s :: ss => s.takesJumps c && Stmt.takeJumps c ss
termination_by structural _ ss => ss

def Stmt.takesJumpsIfAny : Surroundings → Option Stmt → Bool
  | _, none => true
  | c, some s => s.takesJumps c
termination_by structural _ s => s

def SwitchCase.takeJumps : Surroundings → List SwitchCase → Bool
  | _, [] => true
  | c, .mk _ body :: cases => Stmt.takeJumps c body && SwitchCase.takeJumps c cases
termination_by structural _ cs => cs

def Handler.takesJumpsIfAny : Surroundings → Option Handler → Bool
  | _, none => true
  | c, some (.mk _ body) => body.takesJumps c
termination_by structural _ h => h

end

/-- The jumps of a function, and of all functions inside it, have something to take them. -/
inductive Function.WellNested : Function → Prop where
  | intro {f : Function} (hbody : f.body.takesJumps .functionBody)
      (hinner : ∀ g ∈ f.body.functions, g.WellNested) : f.WellNested

structure Block.WellNested (program : Block) : Prop where
  takesJumps : program.takesJumps .program
  functions : ∀ f ∈ program.functions, f.WellNested

end ScriptEngine
