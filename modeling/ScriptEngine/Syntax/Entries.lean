import ScriptEngine.Syntax.Tree

/-!
# Entries of lists

How many entries the array literals and the argument lists of a tree have, in source order. Those in
the bodies of functions count, too.
-/

namespace ScriptEngine

mutual

def Expr.entries : Expr → List Nat
  | .number .. | .string .. | .bool .. | .null .. | .identifier .. | .this .. => []
  | .array _ items => items.length :: Expr.entriesOf items
  | .object _ fields => Field.entriesOf fields
  | .function _ f => f.entries
  | .binary _ _ left right => left.entries ++ right.entries
  | .logical _ _ left right => left.entries ++ right.entries
  | .coalesce _ left right => left.entries ++ right.entries
  | .unary _ _ operand => operand.entries
  | .update _ _ _ target => target.entries
  | .assign _ target value => target.entries ++ value.entries
  | .compound _ _ target value => target.entries ++ value.entries
  | .conditional _ test yes no => test.entries ++ yes.entries ++ no.entries
  | .member _ object property => object.entries ++ property.entries
  | .call _ callee args => callee.entries ++ args.length :: Expr.entriesOf args
  | .construct _ callee args => callee.entries ++ args.length :: Expr.entriesOf args
termination_by structural e => e

def Expr.entriesOf : List Expr → List Nat
  | [] => []
  | e :: es => e.entries ++ Expr.entriesOf es
termination_by structural es => es

def Expr.entriesIfAny : Option Expr → List Nat
  | none => []
  | some e => e.entries
termination_by structural e => e

def Field.entriesOf : List Field → List Nat
  | [] => []
  | .mk _ value :: fields => value.entries ++ Field.entriesOf fields
termination_by structural fields => fields

def Property.entries : Property → List Nat
  | .named _ => []
  | .computed key => key.entries
termination_by structural p => p

def Target.entries : Target → List Nat
  | .name _ => []
  | .member object property => object.entries ++ property.entries
termination_by structural t => t

def Function.entries : Function → List Nat
  | .mk _ _ body => body.entries
termination_by structural f => f

def Block.entries : Block → List Nat
  | .mk _ statements => Stmt.entriesOf statements
termination_by structural b => b

def Block.entriesIfAny : Option Block → List Nat
  | none => []
  | some b => b.entries
termination_by structural b => b

def Stmt.entries : Stmt → List Nat
  | .expression _ e => e.entries
  | .declaration _ _ declarators => Declarator.entriesOf declarators
  | .function _ _ f => f.entries
  | .block _ body => body.entries
  | .branch _ condition yes no => condition.entries ++ yes.entries ++ Stmt.entriesIfAny no
  | .whileLoop _ condition body => condition.entries ++ body.entries
  | .forLoop _ init condition update body =>
    Stmt.entriesIfAny init ++ Expr.entriesIfAny condition ++
      Expr.entriesIfAny update ++ body.entries
  | .switch _ discriminant cases => discriminant.entries ++ SwitchCase.entriesOf cases
  | .raise _ e => e.entries
  | .attempt _ body handler finalizer =>
    body.entries ++ Handler.entriesIfAny handler ++ Block.entriesIfAny finalizer
  | .giveBack _ value => Expr.entriesIfAny value
  | .breakLoop _ | .continueLoop _ | .empty _ => []
termination_by structural s => s

def Stmt.entriesOf : List Stmt → List Nat
  | [] => []
  | s :: ss => s.entries ++ Stmt.entriesOf ss
termination_by structural ss => ss

def Stmt.entriesIfAny : Option Stmt → List Nat
  | none => []
  | some s => s.entries
termination_by structural s => s

def Declarator.entriesOf : List Declarator → List Nat
  | [] => []
  | .mk _ init :: ds => Expr.entriesIfAny init ++ Declarator.entriesOf ds
termination_by structural ds => ds

def SwitchCase.entriesOf : List SwitchCase → List Nat
  | [] => []
  | .mk test body :: cases =>
    Expr.entriesIfAny test ++ Stmt.entriesOf body ++ SwitchCase.entriesOf cases
termination_by structural cs => cs

def Handler.entriesIfAny : Option Handler → List Nat
  | none => []
  | some (.mk _ body) => body.entries
termination_by structural h => h

end

end ScriptEngine
