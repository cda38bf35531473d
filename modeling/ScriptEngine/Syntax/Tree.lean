import ScriptEngine.SyntaxError
import ScriptEngine.Token.Slice

/-!
# Syntax trees

Expressions and statements, each with its origin: the span it covers and the tokens it was read
from. What a tree means depends on the origins only through the texts and places that errors and
printed functions show.
-/

namespace ScriptEngine

open Text

structure Origin where
  span : Span
  tokens : Token.Slice
deriving Inhabited

def Origin.text (o : Origin) : String :=
  o.tokens.text

structure Ident where
  name : String
  span : Span
deriving DecidableEq, Inhabited

inductive BindingKind where
  | var
  | let_
  | const
deriving DecidableEq, Inhabited

def BindingKind.text : BindingKind → String
  | .var => "var"
  | .let_ => "let"
  | .const => "const"

inductive BinaryOp where
  | add | sub | mul | div | rem | exp
  | looseEq | looseNe | strictEq | strictNe
  | less | lessEq | greater | greaterEq
  | bitAnd | bitOr | bitXor
  | shiftLeft | shiftRight | shiftRightZero
deriving DecidableEq, Inhabited

def BinaryOp.text : BinaryOp → String
  | .add => "+"
  | .sub => "-"
  | .mul => "*"
  | .div => "/"
  | .rem => "%"
  | .exp => "**"
  | .looseEq => "=="
  | .looseNe => "!="
  | .strictEq => "==="
  | .strictNe => "!=="
  | .less => "<"
  | .lessEq => "<="
  | .greater => ">"
  | .greaterEq => ">="
  | .bitAnd => "&"
  | .bitOr => "|"
  | .bitXor => "^"
  | .shiftLeft => "<<"
  | .shiftRight => ">>"
  | .shiftRightZero => ">>>"

/-- Operators that may leave their right operand alone and yield one of the two. -/
inductive LogicalOp where
  | and
  | or
deriving DecidableEq, Inhabited

def LogicalOp.text : LogicalOp → String
  | .and => "&&"
  | .or => "||"

inductive UnaryOp where
  | not
  | neg
  | plus
  | bitNot
  | typeOf
deriving DecidableEq, Inhabited

def UnaryOp.text : UnaryOp → String
  | .not => "!"
  | .neg => "-"
  | .plus => "+"
  | .bitNot => "~"
  | .typeOf => "typeof"

inductive UpdateOp where
  | increment
  | decrement
deriving DecidableEq, Inhabited

def UpdateOp.text : UpdateOp → String
  | .increment => "++"
  | .decrement => "--"

mutual

inductive Expr where
  | number (origin : Origin) (value : Float)
  | string (origin : Origin) (value : String)
  | bool (origin : Origin) (value : Bool)
  | null (origin : Origin)
  | array (origin : Origin) (items : List Expr)
  | object (origin : Origin) (fields : List Field)
  | function (origin : Origin) (function : Function)
  | identifier (origin : Origin) (name : String)
  | this (origin : Origin)
  | binary (origin : Origin) (op : BinaryOp) (left right : Expr)
  | logical (origin : Origin) (op : LogicalOp) (left right : Expr)
  | coalesce (origin : Origin) (left right : Expr)
  | unary (origin : Origin) (op : UnaryOp) (operand : Expr)
  | update (origin : Origin) (op : UpdateOp) (side : Side) (target : Target)
  | assign (origin : Origin) (target : Target) (value : Expr)
  | compound (origin : Origin) (op : BinaryOp) (target : Target) (value : Expr)
  | conditional (origin : Origin) (test yes no : Expr)
  | member (origin : Origin) (object : Expr) (property : Property)
  | call (origin : Origin) (callee : Expr) (args : List Expr)
  | construct (origin : Origin) (callee : Expr) (args : List Expr)

inductive Field where
  | mk (key : String) (value : Expr)

inductive Property where
  | named (name : Ident)
  | computed (key : Expr)

inductive Target where
  | name (name : Ident)
  | member (object : Expr) (property : Property)

inductive Function where
  | mk (name : Option Ident) (params : List Ident) (body : Block)

inductive Block where
  | mk (origin : Origin) (statements : List Stmt)

inductive Stmt where
  | expression (origin : Origin) (expr : Expr)
  | declaration (origin : Origin) (kind : BindingKind) (declarators : List Declarator)
  | function (origin : Origin) (name : Ident) (function : Function)
  | block (origin : Origin) (body : Block)
  | branch (origin : Origin) (condition : Expr) (yes : Stmt) (no : Option Stmt)
  | whileLoop (origin : Origin) (condition : Expr) (body : Stmt)
  | forLoop (origin : Origin) (init : Option Stmt) (condition update : Option Expr) (body : Stmt)
  | switch (origin : Origin) (discriminant : Expr) (cases : List SwitchCase)
  | breakLoop (origin : Origin)
  | continueLoop (origin : Origin)
  | raise (origin : Origin) (value : Expr)
  | attempt (origin : Origin) (body : Block) (handler : Option Handler) (finalizer : Option Block)
  | giveBack (origin : Origin) (value : Option Expr)
  | empty (origin : Origin)

inductive Declarator where
  | mk (name : Ident) (init : Option Expr)

inductive SwitchCase where
  | mk (test : Option Expr) (body : List Stmt)

inductive Handler where
  | mk (param : Option Ident) (body : Block)

end

namespace Expr

def origin : Expr → Origin
  | .number o _ | .string o _ | .bool o _ | .null o | .array o _ | .object o _ | .function o _
  | .identifier o _ | .this o | .binary o _ _ _ | .logical o _ _ _ | .coalesce o _ _
  | .unary o _ _ | .update o _ _ _ | .assign o _ _ | .compound o _ _ _ | .conditional o _ _ _
  | .member o _ _ | .call o _ _ | .construct o _ _ => o

def withOrigin (o : Origin) : Expr → Expr
  | .number _ value => .number o value
  | .string _ value => .string o value
  | .bool _ value => .bool o value
  | .null _ => .null o
  | .array _ items => .array o items
  | .object _ fields => .object o fields
  | .function _ f => .function o f
  | .identifier _ name => .identifier o name
  | .this _ => .this o
  | .binary _ op left right => .binary o op left right
  | .logical _ op left right => .logical o op left right
  | .coalesce _ left right => .coalesce o left right
  | .unary _ op operand => .unary o op operand
  | .update _ op side target => .update o op side target
  | .assign _ target value => .assign o target value
  | .compound _ op target value => .compound o op target value
  | .conditional _ test yes no => .conditional o test yes no
  | .member _ base property => .member o base property
  | .call _ callee args => .call o callee args
  | .construct _ callee args => .construct o callee args

def text (e : Expr) : String :=
  e.origin.text

def target? : Expr → Option Target
  | .identifier o name => some (.name ⟨name, o.span⟩)
  | .member _ base property => some (.member base property)
  | _ => none

@[simp] theorem origin_withOrigin (o : Origin) (e : Expr) : (e.withOrigin o).origin = o := by
  cases e <;> rfl

end Expr

namespace Stmt

def origin : Stmt → Origin
  | .expression o _ | .declaration o _ _ | .function o _ _ | .block o _ | .branch o _ _ _
  | .whileLoop o _ _ | .forLoop o _ _ _ _ | .switch o _ _ | .breakLoop o | .continueLoop o
  | .raise o _ | .attempt o _ _ _ | .giveBack o _ | .empty o => o

def text (s : Stmt) : String :=
  s.origin.text

end Stmt

namespace Block

def origin : Block → Origin
  | .mk o _ => o

def statements : Block → List Stmt
  | .mk _ ss => ss

end Block

instance : Inhabited Block := ⟨.mk default []⟩

instance : Inhabited Expr := ⟨.null default⟩

instance : Inhabited Stmt := ⟨.empty default⟩

namespace Function

def name : Function → Option Ident
  | .mk n _ _ => n

def params : Function → List Ident
  | .mk _ ps _ => ps

def body : Function → Block
  | .mk _ _ b => b

instance : Inhabited Function := ⟨.mk none [] default⟩

/-- The function as a source text, built from its name, its parameters and the text of its body. -/
def text (f : Function) : String :=
  "function " ++ (f.name.map Ident.name).getD "" ++ "(" ++
    ", ".intercalate (f.params.map Ident.name) ++ ") " ++ f.body.origin.text

end Function

end ScriptEngine
