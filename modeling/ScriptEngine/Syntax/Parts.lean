import ScriptEngine.Syntax.Functions

/-!
# Statements inside statements

The statements of a body at any depth, in source order: in blocks, branches, loops, first parts of
`for`, arms of `switch` and parts of `try`. Bodies of functions are left out.
-/

namespace ScriptEngine

mutual

def Block.parts : Block → List Stmt
  | .mk _ statements => Stmt.partsOf statements
termination_by structural b => b

def Block.partsIfAny : Option Block → List Stmt
  | none => []
  | some b => b.parts
termination_by structural b => b

def Stmt.inner : Stmt → List Stmt
  | .block _ body => body.parts
  | .branch _ _ yes no => yes :: yes.inner ++ Stmt.partsIfAny no
  | .whileLoop _ _ body => body :: body.inner
  | .forLoop _ init _ _ body => Stmt.partsIfAny init ++ body :: body.inner
  | .switch _ _ cases => SwitchCase.partsOf cases
  | .attempt _ body handler finalizer =>
    body.parts ++ Handler.partsIfAny handler ++ Block.partsIfAny finalizer
  | .expression .. | .declaration .. | .function .. | .breakLoop _ | .continueLoop _ | .raise ..
  | .giveBack .. | .empty _ => []
termination_by structural s => s

def Stmt.partsOf : List Stmt → List Stmt
  | [] => []
  | s :: ss => s :: s.inner ++ Stmt.partsOf ss
termination_by structural ss => ss

def Stmt.partsIfAny : Option Stmt → List Stmt
  | none => []
  | some s => s :: s.inner
termination_by structural s => s

def SwitchCase.partsOf : List SwitchCase → List Stmt
  | [] => []
  | .mk _ body :: cases => Stmt.partsOf body ++ SwitchCase.partsOf cases
termination_by structural cs => cs

def Handler.partsIfAny : Option Handler → List Stmt
  | none => []
  | some (.mk _ body) => body.parts
termination_by structural h => h

end

mutual

/-- The names that a statement declares in the block where it stands. Branches and bodies of `while`
have no block of their own. -/
def Stmt.declaresHere : Stmt → List String
  | .declaration _ _ declarators => declarators.map Declarator.name
  | .function _ name _ => [name.name]
  | .branch _ _ yes no => yes.declaresHere ++ Stmt.declaresHereIfAny no
  | .whileLoop _ _ body => body.declaresHere
  | .expression .. | .block .. | .forLoop .. | .switch .. | .breakLoop _ |
      .continueLoop _ | .raise ..
  | .attempt .. | .giveBack .. | .empty _ => []
termination_by structural s => s

def Stmt.declaresHereIfAny : Option Stmt → List String
  | none => []
  | some s => s.declaresHere
termination_by structural s => s

end

def Stmt.hoistedNames : Stmt → List String
  | .declaration _ .var declarators => declarators.map Declarator.name
  | .function _ name _ => [name.name]
  | _ => []

def Stmt.varNames (ss : List Stmt) : List String :=
  ss.flatMap fun
    | .declaration _ .var declarators => declarators.map Declarator.name
    | _ => []

def Stmt.functionDeclarations (ss : List Stmt) : List (String × Function) :=
  ss.flatMap fun
    | .function _ name f => [(name.name, f)]
    | _ => []

end ScriptEngine
