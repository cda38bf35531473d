import ScriptEngine.Syntax.Tree

/-!
# Functions in a tree

The function expressions and declarations of a tree, in source order. Functions inside the body of
another function belong to that one and are left out.
-/

namespace ScriptEngine

mutual

def Expr.functions : Expr → List Function
  | .number .. | .string .. | .bool .. | .null .. | .identifier .. | .this .. => []
  | .array _ items => Expr.functionsOf items
  | .object _ fields => Field.functionsOf fields
  | .function _ f => [f]
  | .binary _ _ left right => left.functions ++ right.functions
  | .logical _ _ left right => left.functions ++ right.functions
  | .coalesce _ left right => left.functions ++ right.functions
  | .unary _ _ operand => operand.functions
  | .update _ _ _ target => target.functions
  | .assign _ target value => target.functions ++ value.functions
  | .compound _ _ target value => target.functions ++ value.functions
  | .conditional _ test yes no => test.functions ++ yes.functions ++ no.functions
  | .member _ object property => object.functions ++ property.functions
  | .call _ callee args => callee.functions ++ Expr.functionsOf args
  | .construct _ callee args => callee.functions ++ Expr.functionsOf args
termination_by structural e => e

def Expr.functionsOf : List Expr → List Function
  | [] => []
  | e :: es => e.functions ++ Expr.functionsOf es
termination_by structural es => es

def Field.functionsOf : List Field → List Function
  | [] => []
  | .mk _ value :: fields => value.functions ++ Field.functionsOf fields
termination_by structural fields => fields

def Property.functions : Property → List Function
  | .named _ => []
  | .computed key => key.functions
termination_by structural p => p

def Target.functions : Target → List Function
  | .name _ => []
  | .member object property => object.functions ++ property.functions
termination_by structural t => t

end

def Expr.functionsIfAny : Option Expr → List Function
  | none => []
  | some e => e.functions

def Declarator.name : Declarator → String
  | .mk name _ => name.name

def Declarator.functionsOf : List Declarator → List Function
  | [] => []
  | .mk _ init :: ds => Expr.functionsIfAny init ++ Declarator.functionsOf ds

mutual

def Block.functions : Block → List Function
  | .mk _ statements => Stmt.functionsOf statements
termination_by structural b => b

def Block.functionsIfAny : Option Block → List Function
  | none => []
  | some b => b.functions
termination_by structural b => b

def Stmt.functions : Stmt → List Function
  | .expression _ e => e.functions
  | .declaration _ _ declarators => Declarator.functionsOf declarators
  | .function _ _ f => [f]
  | .block _ body => body.functions
  | .branch _ condition yes no => condition.functions ++ yes.functions ++ Stmt.functionsIfAny no
  | .whileLoop _ condition body => condition.functions ++ body.functions
  | .forLoop _ init condition update body =>
    Stmt.functionsIfAny init ++ Expr.functionsIfAny condition ++ Expr.functionsIfAny update ++
      body.functions
  | .switch _ discriminant cases => discriminant.functions ++ SwitchCase.functionsOf cases
  | .raise _ e => e.functions
  | .attempt _ body handler finalizer =>
    body.functions ++ Handler.functionsIfAny handler ++ Block.functionsIfAny finalizer
  | .giveBack _ value => Expr.functionsIfAny value
  | .breakLoop _ | .continueLoop _ | .empty _ => []
termination_by structural s => s

def Stmt.functionsOf : List Stmt → List Function
  | [] => []
  | s :: ss => s.functions ++ Stmt.functionsOf ss
termination_by structural ss => ss

def Stmt.functionsIfAny : Option Stmt → List Function
  | none => []
  | some s => s.functions
termination_by structural s => s

def SwitchCase.functionsOf : List SwitchCase → List Function
  | [] => []
  | .mk test body :: cases =>
    Expr.functionsIfAny test ++ Stmt.functionsOf body ++ SwitchCase.functionsOf cases
termination_by structural cs => cs

def Handler.functionsIfAny : Option Handler → List Function
  | none => []
  | some (.mk _ body) => body.functions
termination_by structural h => h

end

end ScriptEngine
