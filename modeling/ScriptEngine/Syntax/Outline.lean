import ScriptEngine.Syntax.Tree

/-!
# Outlines

All nodes of a program in preorder, each with its label, its place, its token range and its text.
Children come in source order.
-/

namespace ScriptEngine

open Text

/-- What an entry of an outline is about. The first part of a `for` is no statement of its own. -/
inductive Outline.Subject where
  | name
  | block
  | statement (s : Stmt)
  | initialiser (s : Stmt)
  | expression (e : Expr)

/-- A node of a tree. Names have no token range of their own. -/
structure Outline.Entry where
  label : String
  span : Span
  range : Option (Nat × Nat)
  text : String
  subject : Outline.Subject

namespace Outline

def Entry.ofIdent (i : Ident) : Entry :=
  ⟨"Ident", i.span, none, i.name, .name⟩

def Entry.at (label : String) (o : Origin) (subject : Subject) : Entry :=
  ⟨label, o.span, some (o.tokens.start, o.tokens.stop), o.text, subject⟩

def identIfAny : Option Ident → List Entry
  | none => []
  | some i => [Entry.ofIdent i]

end Outline

open Outline

def Expr.label : Expr → String
  | .number .. => "Number"
  | .string .. => "String"
  | .bool .. => "Bool"
  | .null .. => "Null"
  | .array .. => "Array"
  | .object .. => "Object"
  | .function .. => "Function"
  | .identifier .. => "Identifier"
  | .this .. => "This"
  | .binary .. => "Binary"
  | .logical .. => "Logical"
  | .coalesce .. => "Coalesce"
  | .unary .. => "Unary"
  | .update .. => "Update"
  | .assign .. => "Assign"
  | .compound .. => "CompoundAssign"
  | .conditional .. => "Conditional"
  | .member .. => "Member"
  | .call .. => "Call"
  | .construct .. => "New"

def Stmt.label : Stmt → String
  | .expression .. => "ExpressionStmt"
  | .declaration .. => "VarDecl"
  | .function .. => "FunctionDecl"
  | .block .. => "BlockStmt"
  | .branch .. => "If"
  | .whileLoop .. => "While"
  | .forLoop .. => "For"
  | .switch .. => "Switch"
  | .breakLoop .. => "Break"
  | .continueLoop .. => "Continue"
  | .raise .. => "Throw"
  | .attempt .. => "Try"
  | .giveBack .. => "Return"
  | .empty .. => "Empty"

def Expr.entry (e : Expr) : Entry :=
  Entry.at e.label e.origin (.expression e)

def Stmt.entry (s : Stmt) : Entry :=
  Entry.at s.label s.origin (.statement s)

def Stmt.initialiserEntry (s : Stmt) : Entry :=
  Entry.at s.label s.origin (.initialiser s)

def Block.entry (b : Block) : Entry :=
  Entry.at "Block\x7b\x7d" b.origin .block

mutual

def Expr.descendants : Expr → List Entry
  | .number .. | .string .. | .bool .. | .null .. | .identifier .. | .this .. => []
  | .array _ items => Expr.outlines items
  | .object _ fields => Field.outlines fields
  | .function _ f => f.outline
  | .binary _ _ left right => left.entry :: left.descendants ++ right.entry :: right.descendants
  | .logical _ _ left right => left.entry :: left.descendants ++ right.entry :: right.descendants
  | .coalesce _ left right => left.entry :: left.descendants ++ right.entry :: right.descendants
  | .unary _ _ operand => operand.entry :: operand.descendants
  | .update _ _ _ target => target.outline
  | .assign _ target value => target.outline ++ value.entry :: value.descendants
  | .compound _ _ target value => target.outline ++ value.entry :: value.descendants
  | .conditional _ test yes no =>
    test.entry :: test.descendants ++ yes.entry :: yes.descendants ++ no.entry :: no.descendants
  | .member _ object property => object.entry :: object.descendants ++ property.outline
  | .call _ callee args => callee.entry :: callee.descendants ++ Expr.outlines args
  | .construct _ callee args => callee.entry :: callee.descendants ++ Expr.outlines args
termination_by structural e => e

def Expr.outlines : List Expr → List Entry
  | [] => []
  | e :: es => e.entry :: e.descendants ++ Expr.outlines es
termination_by structural es => es

def Expr.outlineIfAny : Option Expr → List Entry
  | none => []
  | some e => e.entry :: e.descendants
termination_by structural e => e

def Field.outlines : List Field → List Entry
  | [] => []
  | .mk _ value :: fs => value.entry :: value.descendants ++ Field.outlines fs
termination_by structural fs => fs

def Property.outline : Property → List Entry
  | .named name => [Entry.ofIdent name]
  | .computed key => key.entry :: key.descendants
termination_by structural p => p

def Target.outline : Target → List Entry
  | .name name => [Entry.ofIdent name]
  | .member object property => object.entry :: object.descendants ++ property.outline
termination_by structural t => t

def Function.outline : Function → List Entry
  | .mk name params body => identIfAny name ++ params.map Entry.ofIdent ++ body.outline
termination_by structural f => f

def Block.outline : Block → List Entry
  | .mk o statements => (Block.mk o statements).entry :: Stmt.outlines statements
termination_by structural b => b

def Block.outlineIfAny : Option Block → List Entry
  | none => []
  | some b => b.outline
termination_by structural b => b

def Stmt.descendants : Stmt → List Entry
  | .expression _ expr => expr.entry :: expr.descendants
  | .declaration _ _ declarators => Declarator.outlines declarators
  | .function _ name (.mk _ params body) =>
    Entry.ofIdent name :: params.map Entry.ofIdent ++ body.outline
  | .block _ body => body.outline
  | .branch _ condition yes no =>
    condition.entry :: condition.descendants ++ yes.entry :: yes.descendants ++ Stmt.outlineIfAny no
  | .whileLoop _ condition body =>
    condition.entry :: condition.descendants ++ body.entry :: body.descendants
  | .forLoop _ init condition update body =>
    Stmt.initialiserIfAny init ++ Expr.outlineIfAny condition ++ Expr.outlineIfAny update ++
      body.entry :: body.descendants
  | .switch _ discriminant cases =>
    discriminant.entry :: discriminant.descendants ++ SwitchCase.outlines cases
  | .raise _ value => value.entry :: value.descendants
  | .attempt _ body handler finalizer =>
    body.outline ++ Handler.outlineIfAny handler ++ Block.outlineIfAny finalizer
  | .giveBack _ value => Expr.outlineIfAny value
  | .breakLoop _ | .continueLoop _ | .empty _ => []
termination_by structural s => s

def Stmt.outlines : List Stmt → List Entry
  | [] => []
  | s :: ss => s.entry :: s.descendants ++ Stmt.outlines ss
termination_by structural ss => ss

def Stmt.outlineIfAny : Option Stmt → List Entry
  | none => []
  | some s => s.entry :: s.descendants
termination_by structural s => s

def Stmt.initialiserIfAny : Option Stmt → List Entry
  | none => []
  | some s => s.initialiserEntry :: s.descendants
termination_by structural s => s

def Declarator.outlines : List Declarator → List Entry
  | [] => []
  | .mk name init :: ds =>
    Entry.ofIdent name :: Expr.outlineIfAny init ++ Declarator.outlines ds
termination_by structural ds => ds

def SwitchCase.outlines : List SwitchCase → List Entry
  | [] => []
  | .mk test body :: cs =>
    Expr.outlineIfAny test ++ Stmt.outlines body ++ SwitchCase.outlines cs
termination_by structural cs => cs

def Handler.outlineIfAny : Option Handler → List Entry
  | none => []
  | some (.mk param body) => identIfAny param ++ body.outline
termination_by structural h => h

end

@[simp] theorem Expr.descendants_withOrigin (o : Origin) (e : Expr) :
    (e.withOrigin o).descendants = e.descendants := by
  cases e <;> simp only [withOrigin, descendants]

end ScriptEngine
