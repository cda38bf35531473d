import ScriptEngine.Syntax.Tree
import ScriptEngine.Text.Printable

/-!
# Writing expressions

An expression as the words that write it: every operator in its place, and parentheses only around
an operand that binds less tightly than its place asks for. Functions are not written.
-/

namespace ScriptEngine

/-- A token without its place. -/
abbrev Word := Token.Kind × String

def Token.word (t : Token) : Word :=
  (t.kind, t.text)

namespace Word

def symbol (c : Symbol) : Word :=
  (.symbol c, c.text)

def keyword (k : Keyword) : Word :=
  (.keyword k, k.text)

def name (n : String) : Word :=
  (.identifier n, n)

def string (value : String) : Word :=
  (.string value, Text.quote value)

def propertyName (n : String) : Word :=
  match Keyword.ofText? n with
  | some k => keyword k
  | none => name n

end Word

def BinaryOp.symbol : BinaryOp → Symbol
  | .add => .plus
  | .sub => .minus
  | .mul => .star
  | .div => .slash
  | .rem => .percent
  | .exp => .power
  | .looseEq => .equal
  | .looseNe => .notEqual
  | .strictEq => .same
  | .strictNe => .notSame
  | .less => .less
  | .lessEq => .lessEqual
  | .greater => .greater
  | .greaterEq => .greaterEqual
  | .bitAnd => .bitAnd
  | .bitOr => .bitOr
  | .bitXor => .bitXor
  | .shiftLeft => .shiftLeft
  | .shiftRight => .shiftRight
  | .shiftRightZero => .shiftRightZero

def BinaryOp.assignSymbol? : BinaryOp → Option Symbol
  | .add => some .plusAssign
  | .sub => some .minusAssign
  | .mul => some .starAssign
  | .div => some .slashAssign
  | .rem => some .percentAssign
  | _ => none

def LogicalOp.symbol : LogicalOp → Symbol
  | .and => .and_
  | .or => .or_

def UpdateOp.symbol : UpdateOp → Symbol
  | .increment => .increment
  | .decrement => .decrement

def UnaryOp.word : UnaryOp → Word
  | .not => .symbol .bang
  | .neg => .symbol .minus
  | .plus => .symbol .plus
  | .bitNot => .symbol .bitNot
  | .typeOf => .keyword .typeof

/-! ## Ranks

The rungs of the ladder, loosest first. Calls and updates behind an operand share a rung of it, but
an update takes a call as its operand and not the other way round. -/

namespace Rank

@[simp] def assignment : Nat := 1

@[simp] def conditional : Nat := 2

@[simp] def coalesce : Nat := 3

@[simp] def exponent : Nat := 14

@[simp] def unary : Nat := 15

@[simp] def updated : Nat := 16

@[simp] def call : Nat := 17

@[simp] def member : Nat := 18

@[simp] def primary : Nat := 19

end Rank

def LogicalOp.rank : LogicalOp → Nat
  | .or => 4
  | .and => 5

def BinaryOp.rank : BinaryOp → Nat
  | .bitOr => 6
  | .bitXor => 7
  | .bitAnd => 8
  | .looseEq | .looseNe | .strictEq | .strictNe => 9
  | .less | .lessEq | .greater | .greaterEq => 10
  | .shiftLeft | .shiftRight | .shiftRightZero => 11
  | .add | .sub => 12
  | .mul | .div | .rem => 13
  | .exp => Rank.exponent

/-- How tightly an expression binds. A member of a call is a part of the call's chain. -/
def Expr.rank : Expr → Nat
  | .number .. | .string .. | .bool .. | .null .. | .array .. | .object .. | .function ..
  | .identifier .. | .this .. => Rank.primary
  | .construct .. => Rank.member
  | .member _ base _ => if base.rank = Rank.call then Rank.call else Rank.member
  | .call .. => Rank.call
  | .update _ _ .after _ => Rank.updated
  | .update _ _ .before _ | .unary .. => Rank.unary
  | .binary _ op _ _ => op.rank
  | .logical _ op _ _ => op.rank
  | .coalesce .. => Rank.coalesce
  | .conditional .. => Rank.conditional
  | .assign .. | .compound .. => Rank.assignment

def Word.grouped (needed : Bool) (ws : List Word) : List Word :=
  if needed then symbol .openParen :: ws ++ [symbol .closeParen] else ws

section Print

open Word (grouped)

variable (numeral : Float → Word)

/-- Whether a number is written by a word with its value. -/
def writesNumber (value : Float) : Bool :=
  match (numeral value).1.literalValue? (numeral value).2 with
  | some x => x == value
  | none => false

mutual

def Expr.words : Expr → List Word
  | .number _ value => [numeral value]
  | .string _ value => [.string value]
  | .bool _ true => [.keyword .true_]
  | .bool _ false => [.keyword .false_]
  | .null _ => [.keyword .null]
  | .this _ => [.keyword .this]
  | .identifier _ name => [.name name]
  | .function .. => []
  | .array _ items =>
    .symbol .openBracket :: Expr.listWords items ++ [.symbol .closeBracket]
  | .object _ fields => .symbol .openBrace :: Field.listWords fields ++ [.symbol .closeBrace]
  | .member _ base property =>
    grouped (base.rank < Rank.call) base.words ++ property.words
  | .call _ callee args =>
    grouped (callee.rank < Rank.call) callee.words ++
      .symbol .openParen :: Expr.listWords args ++ [.symbol .closeParen]
  | .construct _ callee args =>
    .keyword .new :: grouped (callee.rank < Rank.member) callee.words ++
      .symbol .openParen :: Expr.listWords args ++ [.symbol .closeParen]
  | .update _ op .before target => .symbol op.symbol :: target.words
  | .update _ op .after target => target.words ++ [.symbol op.symbol]
  | .unary _ op operand => op.word :: grouped (operand.rank < Rank.unary) operand.words
  | .binary _ .exp left right =>
    grouped (left.rank < Rank.unary) left.words ++
      .symbol .power :: grouped (right.rank < Rank.exponent) right.words
  | .binary _ op left right =>
    grouped (left.rank < op.rank) left.words ++
      .symbol op.symbol :: grouped (right.rank < op.rank + 1) right.words
  | .logical _ op left right =>
    grouped (left.rank < op.rank) left.words ++
      .symbol op.symbol :: grouped (right.rank < op.rank + 1) right.words
  | .coalesce _ left right =>
    grouped (left.rank < Rank.coalesce) left.words ++
      .symbol .coalesce :: grouped (right.rank < Rank.coalesce + 1) right.words
  | .conditional _ test yes no =>
    grouped (test.rank < Rank.coalesce) test.words ++
      .symbol .question :: yes.words ++ .symbol .colon :: no.words
  | .assign _ target value => target.words ++ .symbol .assign :: value.words
  | .compound _ op target value =>
    target.words ++ .symbol (op.assignSymbol?.getD .assign) :: value.words
termination_by structural e => e

def Expr.listWords : List Expr → List Word
  | [] => []
  | [e] => e.words
  | e :: es => e.words ++ .symbol .comma :: Expr.listWords es
termination_by structural es => es

def Field.listWords : List Field → List Word
  | [] => []
  | [.mk key value] => .string key :: .symbol .colon :: value.words
  | .mk key value :: fields =>
    .string key :: .symbol .colon :: value.words ++ .symbol .comma :: Field.listWords fields
termination_by structural fields => fields

def Property.words : Property → List Word
  | .named name => [.symbol .dot, .propertyName name.name]
  | .computed key => .symbol .openBracket :: key.words ++ [.symbol .closeBracket]
termination_by structural p => p

def Target.words : Target → List Word
  | .name name => [.name name.name]
  | .member base property =>
    grouped (base.rank < Rank.call) base.words ++ property.words
termination_by structural t => t

end

mutual

/-- Whether an expression can be written: there is no function in it, the numbers have words, and
compound assignments have symbols. -/
def Expr.writable : Expr → Bool
  | .number _ value => writesNumber numeral value
  | .string .. | .bool .. | .null .. | .identifier .. | .this .. => true
  | .function .. => false
  | .array _ items => Expr.allWritable items
  | .object _ fields => Field.allWritable fields
  | .member _ base property => base.writable && property.writable
  | .call _ callee args => callee.writable && Expr.allWritable args
  | .construct _ callee args => callee.writable && Expr.allWritable args
  | .update _ _ _ target => target.writable
  | .unary _ _ operand => operand.writable
  | .binary _ _ left right => left.writable && right.writable
  | .logical _ _ left right => left.writable && right.writable
  | .coalesce _ left right => left.writable && right.writable
  | .conditional _ test yes no => test.writable && yes.writable && no.writable
  | .assign _ target value => target.writable && value.writable
  | .compound _ op target value =>
    op.assignSymbol?.isSome && target.writable && value.writable
termination_by structural e => e

def Expr.allWritable : List Expr → Bool
  | [] => true
  | e :: es => e.writable && Expr.allWritable es
termination_by structural es => es

def Field.allWritable : List Field → Bool
  | [] => true
  | .mk _ value :: fields => value.writable && Field.allWritable fields
termination_by structural fields => fields

def Property.writable : Property → Bool
  | .named _ => true
  | .computed key => key.writable
termination_by structural p => p

def Target.writable : Target → Bool
  | .name _ => true
  | .member base property => base.writable && property.writable
termination_by structural t => t

end

namespace Expr

/-- Parentheses in the source leave nothing but an origin behind, which is not printed. -/
@[simp] theorem words_withOrigin (o : Origin) (e : Expr) :
    (e.withOrigin o).words numeral = e.words numeral := by
  cases e with
  | bool _ value => cases value <;> simp only [withOrigin, words]
  | update _ _ side _ => cases side <;> simp only [withOrigin, words]
  | binary _ op _ _ => cases op <;> simp only [withOrigin, words]
  | _ => simp only [withOrigin, words]

@[simp] theorem writable_withOrigin (o : Origin) (e : Expr) :
    (e.withOrigin o).writable numeral = e.writable numeral := by
  cases e <;> simp only [withOrigin, writable]

end Expr

end Print

end ScriptEngine
