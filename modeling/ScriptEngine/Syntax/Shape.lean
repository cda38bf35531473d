import ScriptEngine.Json.Quoted
import ScriptEngine.Numeric.Numeral
import ScriptEngine.Syntax.Tree

/-!
# Trees as symbolic expressions

The shape of a tree without its origins, written with parentheses. Absent parts are underscores and
texts stand between quotes with the escapes of JSON.
-/

namespace ScriptEngine

namespace Shape

def quoted (s : String) : String :=
  Json.quote s

def listed (parts : List String) : String :=
  "(" ++ " ".intercalate parts ++ ")"

def nameOr (n : Option Ident) : String :=
  match n with
  | some i => i.name
  | none => "_"

end Shape

open Shape

mutual

def Expr.shape : Expr → String
  | .number _ value => listed ["num", Numeric.render value]
  | .string _ value => listed ["str", quoted value]
  | .bool _ value => listed ["bool", if value then "true" else "false"]
  | .null _ => "(null)"
  | .array _ items => listed ("array" :: Expr.shapes items)
  | .object _ fields => listed ("object" :: Field.shapes fields)
  | .function _ f => f.shape
  | .identifier _ name => listed ["id", name]
  | .this _ => "(this)"
  | .binary _ op left right => listed ["bin", op.text, left.shape, right.shape]
  | .logical _ op left right => listed ["logical", op.text, left.shape, right.shape]
  | .coalesce _ left right => listed ["coalesce", left.shape, right.shape]
  | .unary _ op operand => listed ["unary", op.text, operand.shape]
  | .update _ op side target => listed ["update", op.text, side.name, target.shape]
  | .assign _ target value => listed ["assign", target.shape, value.shape]
  | .compound _ op target value => listed ["compound", op.text, target.shape, value.shape]
  | .conditional _ test yes no => listed ["cond", test.shape, yes.shape, no.shape]
  | .member _ object property => Property.shape object.shape property
  | .call _ callee args => listed ("call" :: callee.shape :: Expr.shapes args)
  | .construct _ callee args => listed ("new" :: callee.shape :: Expr.shapes args)
termination_by structural e => e

def Expr.shapes : List Expr → List String
  | [] => []
  | e :: es => e.shape :: Expr.shapes es
termination_by structural es => es

def Expr.shapeIfAny : Option Expr → List String
  | none => []
  | some e => [e.shape]
termination_by structural e => e

def Expr.shapeOr : Option Expr → String
  | none => "_"
  | some e => e.shape
termination_by structural e => e

def Field.shapes : List Field → List String
  | [] => []
  | .mk key value :: fs => listed [quoted key, value.shape] :: Field.shapes fs
termination_by structural fs => fs

def Property.shape (object : String) : Property → String
  | .named name => listed ["member", object, name.name]
  | .computed key => listed ["index", object, key.shape]
termination_by structural p => p

def Target.shape : Target → String
  | .name name => listed ["id", name.name]
  | .member object property => Property.shape object.shape property
termination_by structural t => t

def Function.shape : Function → String
  | .mk name params body =>
    listed ("function" :: nameOr name :: listed ("params" :: params.map Ident.name) :: body.shapes)
termination_by structural f => f

def Block.shapes : Block → List String
  | .mk _ statements => Stmt.shapes statements
termination_by structural b => b

def Stmt.shape : Stmt → String
  | .expression _ expr => listed ["expr", expr.shape]
  | .declaration _ kind declarators =>
    listed ("decl" :: kind.text :: Declarator.shapes declarators)
  | .function _ name f => listed ["fundecl", name.name, f.shape]
  | .block _ body => listed ("block" :: body.shapes)
  | .branch _ condition yes no =>
    listed ("if" :: condition.shape :: yes.shape :: Stmt.shapeIfAny no)
  | .whileLoop _ condition body => listed ["while", condition.shape, body.shape]
  | .forLoop _ init condition update body =>
    listed ["for", Stmt.shapeOr init, Expr.shapeOr condition, Expr.shapeOr update, body.shape]
  | .switch _ discriminant cases =>
    listed ("switch" :: discriminant.shape :: SwitchCase.shapes cases)
  | .breakLoop _ => "(break)"
  | .continueLoop _ => "(continue)"
  | .raise _ value => listed ["throw", value.shape]
  | .attempt _ body handler finalizer =>
    listed ["try", listed ("block" :: body.shapes), Handler.shapeOr handler,
      Block.finallyShape finalizer]
  | .giveBack _ value => listed ("return" :: Expr.shapeIfAny value)
  | .empty _ => "(empty)"
termination_by structural s => s

def Stmt.shapes : List Stmt → List String
  | [] => []
  | s :: ss => s.shape :: Stmt.shapes ss
termination_by structural ss => ss

def Stmt.shapeIfAny : Option Stmt → List String
  | none => []
  | some s => [s.shape]
termination_by structural s => s

def Stmt.shapeOr : Option Stmt → String
  | none => "_"
  | some s => s.shape
termination_by structural s => s

def Declarator.shapes : List Declarator → List String
  | [] => []
  | .mk name init :: ds => listed (name.name :: Expr.shapeIfAny init) :: Declarator.shapes ds
termination_by structural ds => ds

def SwitchCase.shapes : List SwitchCase → List String
  | [] => []
  | .mk test body :: cs =>
    let head := match test with
      | some e => ["case", e.shape]
      | none => ["default"]
    listed (head ++ Stmt.shapes body) :: SwitchCase.shapes cs
termination_by structural cs => cs

def Handler.shapeOr : Option Handler → String
  | none => "_"
  | some (.mk param body) => listed ("catch" :: nameOr param :: body.shapes)
termination_by structural h => h

def Block.finallyShape : Option Block → String
  | none => "_"
  | some body => listed ("finally" :: body.shapes)
termination_by structural b => b

end

def Block.programShape (program : Block) : String :=
  listed ("program" :: program.shapes)

end ScriptEngine
