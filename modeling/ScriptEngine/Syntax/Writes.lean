import ScriptEngine.Syntax.Functions

/-!
# Names that a tree writes

The names that a body assigns, updates or declares with `var`, in source order. What functions
inside it write is left out.
-/

namespace ScriptEngine

mutual

def Expr.writes : Expr → List String
  | .number .. | .string .. | .bool .. | .null .. | .identifier .. | .this .. | .function .. => []
  | .array _ items => Expr.writesOf items
  | .object _ fields => Field.writesOf fields
  | .binary _ _ left right => left.writes ++ right.writes
  | .logical _ _ left right => left.writes ++ right.writes
  | .coalesce _ left right => left.writes ++ right.writes
  | .unary _ _ operand => operand.writes
  | .update _ _ _ target => target.writes
  | .assign _ target value => target.writes ++ value.writes
  | .compound _ _ target value => target.writes ++ value.writes
  | .conditional _ test yes no => test.writes ++ yes.writes ++ no.writes
  | .member _ object property => object.writes ++ property.writes
  | .call _ callee args => callee.writes ++ Expr.writesOf args
  | .construct _ callee args => callee.writes ++ Expr.writesOf args
termination_by structural e => e

def Expr.writesOf : List Expr → List String
  | [] => []
  | e :: es => e.writes ++ Expr.writesOf es
termination_by structural es => es

def Field.writesOf : List Field → List String
  | [] => []
  | .mk _ value :: fields => value.writes ++ Field.writesOf fields
termination_by structural fields => fields

def Property.writes : Property → List String
  | .named _ => []
  | .computed key => key.writes
termination_by structural p => p

def Target.writes : Target → List String
  | .name name => [name.name]
  | .member object property => object.writes ++ property.writes
termination_by structural t => t

end

def Expr.writesIfAny : Option Expr → List String
  | none => []
  | some e => e.writes

/-- What declarators of a kind write: the values of `let` and `const` names are not written again.
-/
def Declarator.writesOf (kind : BindingKind) : List Declarator → List String
  | [] => []
  | .mk name init :: ds =>
    (if kind = .var then [name.name] else []) ++ Expr.writesIfAny init ++
      Declarator.writesOf kind ds

mutual

def Block.writes : Block → List String
  | .mk _ statements => Stmt.writesOf statements
termination_by structural b => b

def Block.writesIfAny : Option Block → List String
  | none => []
  | some b => b.writes
termination_by structural b => b

def Stmt.writes : Stmt → List String
  | .expression _ e => e.writes
  | .declaration _ kind declarators => Declarator.writesOf kind declarators
  | .block _ body => body.writes
  | .branch _ condition yes no => condition.writes ++ yes.writes ++ Stmt.writesIfAny no
  | .whileLoop _ condition body => condition.writes ++ body.writes
  | .forLoop _ init condition update body =>
    Stmt.writesIfAny init ++ Expr.writesIfAny condition ++ Expr.writesIfAny update ++ body.writes
  | .switch _ discriminant cases => discriminant.writes ++ SwitchCase.writesOf cases
  | .raise _ e => e.writes
  | .attempt _ body handler finalizer =>
    body.writes ++ Handler.writesIfAny handler ++ Block.writesIfAny finalizer
  | .giveBack _ value => Expr.writesIfAny value
  | .function .. | .breakLoop _ | .continueLoop _ | .empty _ => []
termination_by structural s => s

def Stmt.writesOf : List Stmt → List String
  | [] => []
  | s :: ss => s.writes ++ Stmt.writesOf ss
termination_by structural ss => ss

def Stmt.writesIfAny : Option Stmt → List String
  | none => []
  | some s => s.writes
termination_by structural s => s

def SwitchCase.writesOf : List SwitchCase → List String
  | [] => []
  | .mk test body :: cases =>
    Expr.writesIfAny test ++ Stmt.writesOf body ++ SwitchCase.writesOf cases
termination_by structural cs => cs

def Handler.writesIfAny : Option Handler → List String
  | none => []
  | some (.mk _ body) => body.writes
termination_by structural h => h

end

/-- A function that writes none of some names, nor does any function inside it. -/
inductive Function.Spares (names : List String) : Function → Prop where
  | intro {f : Function} (hbody : ∀ name ∈ f.body.writes, name ∉ names)
      (hinner : ∀ g ∈ f.body.functions, g.Spares names) : f.Spares names

end ScriptEngine
