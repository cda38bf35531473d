import ScriptEngine.Numeric.Numeral
import ScriptEngine.Syntax.Parse

/-!
# Reading expressions

The ladder of operators, from assignment down to primary expressions. Every function takes the
grammar of deeper nesting as an argument and uses it only behind a token it has taken, so that the
nesting is bounded by the number of tokens.
-/

namespace ScriptEngine

open SyntaxError Parse

structure Grammar where
  assignment : Parse Expr
  exponent : Parse Expr
  unary : Parse Expr
  member : Parse Expr
  statement : Parse Stmt

namespace Grammar

def exhausted : Grammar where
  assignment := fail .tooDeep
  exponent := fail .tooDeep
  unary := fail .tooDeep
  member := fail .tooDeep
  statement := fail .tooDeep

variable (g : Grammar)

def block : Parse Block := do
  let start ← get
  expect .openBrace .blockStart
  let body ← manyUntil (fun k => k == .symbol .closeBrace || k == .endOfInput)
    g.statement (← rounds)
  expect .closeBrace .blockEnd
  return .mk (← originFrom start) body

def functionRest : Parse (List Ident × Block) := do
  expect .openParen .parameterListStart
  let params ← separatedBefore .closeParen (expectName .parameterName)
  expect .closeParen .parameterListEnd
  return (params, ← block g)

def functionName : Parse (Option Ident) := do
  match ← kind with
  | .identifier _ => return some (← expectName .functionName)
  | _ => return none

def arguments : Parse (List Expr) := do
  expect .openParen .argumentListStart
  let args ← separatedBefore .closeParen g.assignment
  expect .closeParen .argumentListEnd
  return args

def argumentsIfAny : Parse (List Expr) := do
  if ← checkSymbol .openParen then arguments g else return []

/-- The key of a field: a name, a string, a keyword, or a number in its usual text. -/
def fieldKey? (t : Token) : Option String :=
  match t.kind with
  | .identifier name => some name
  | .string value => some value
  | .keyword _ => some t.text
  | _ => t.literalValue?.map Numeric.render

def field : Parse Field := do
  match fieldKey? (← peek) with
  | none => fail (.expected .objectKey)
  | some key =>
    let _ ← advance
    expect .colon .objectColon
    return .mk key (← g.assignment)

def primary : Parse Expr := do
  let start ← get
  let t ← peek
  match t.kind with
  | .number _ =>
    match t.literalValue? with
    | none => unexpected
    | some value =>
      let _ ← advance
      return .number (← originFrom start) value
  | .string value =>
    let _ ← advance
    return .string (← originFrom start) value
  | .identifier name =>
    let _ ← advance
    return .identifier (← originFrom start) name
  | .keyword .true_ =>
    let _ ← advance
    return .bool (← originFrom start) true
  | .keyword .false_ =>
    let _ ← advance
    return .bool (← originFrom start) false
  | .keyword .null =>
    let _ ← advance
    return .null (← originFrom start)
  | .keyword .this =>
    let _ ← advance
    return .this (← originFrom start)
  | .keyword .function =>
    let _ ← advance
    let name ← functionName
    let (params, body) ← functionRest g
    return .function (← originFrom start) (.mk name params body)
  | .symbol .openParen =>
    let _ ← advance
    let inner ← g.assignment
    expect .closeParen .groupEnd
    return inner.withOrigin (← originFrom start)
  | .symbol .openBracket =>
    let _ ← advance
    let items ← separatedUntil .closeBracket g.assignment (← rounds)
    expect .closeBracket .arrayEnd
    return .array (← originFrom start) items
  | .symbol .openBrace =>
    let _ ← advance
    let fields ← separatedUntil .closeBrace (field g) (← rounds)
    expect .closeBrace .objectEnd
    return .object (← originFrom start) fields
  | _ => unexpected

/-- A name behind a point or an expression between brackets, if either follows. -/
def memberSuffix : Parse (Option Property) := do
  if ← eatSymbol .dot then
    return some (.named (← expectPropertyName))
  else if ← eatSymbol .openBracket then
    let key ← g.assignment
    expect .closeBracket .indexEnd
    return some (.computed key)
  else
    return none

def memberStep (start : Nat) (e : Expr) : Parse (Option Expr) := do
  match ← memberSuffix g with
  | some property => return some (.member (← originFrom start) e property)
  | none => return none

/-- A `new` with its callee and its arguments, which may be left out, or a primary expression. -/
def memberHead : Parse Expr := do
  let start ← get
  if ← eatKeyword .new then
    let callee ← g.member
    let args ← argumentsIfAny g
    return .construct (← originFrom start) callee args
  else
    primary g

def readMember : Parse Expr := do
  let start ← get
  let head ← memberHead g
  chain (memberStep g start) (← rounds) head

def callStep (start : Nat) (e : Expr) : Parse (Option Expr) := do
  if ← checkSymbol .openParen then
    let args ← arguments g
    return some (.call (← originFrom start) e args)
  else
    memberStep g start e

def call : Parse Expr := do
  let start ← get
  let head ← readMember g
  chain (callStep g start) (← rounds) head

def updateOp? : Token.Kind → Option UpdateOp
  | .symbol .increment => some .increment
  | .symbol .decrement => some .decrement
  | _ => none

def updated : Parse Expr := do
  let start ← get
  let e ← call g
  match updateOp? (← kind) with
  | none => return e
  | some op =>
    match e.target? with
    | none => fail (.invalidUpdateTarget .after)
    | some target =>
      let _ ← advance
      return .update (← originFrom start) op .after target

def unaryOp? : Token.Kind → Option UnaryOp
  | .symbol .bang => some .not
  | .symbol .minus => some .neg
  | .symbol .plus => some .plus
  | .symbol .bitNot => some .bitNot
  | .keyword .typeof => some .typeOf
  | _ => none

def readUnary : Parse Expr := do
  let start ← get
  let k ← kind
  match updateOp? k with
  | some op =>
    let _ ← advance
    let operand ← g.unary
    match operand.target? with
    | none => fail (.invalidUpdateTarget .before)
    | some target => return .update (← originFrom start) op .before target
  | none =>
    match unaryOp? k with
    | some op =>
      let _ ← advance
      let operand ← g.unary
      return .unary (← originFrom start) op operand
    | none => updated g

def readExponent : Parse Expr := do
  let start ← get
  let base ← readUnary g
  if ← eatSymbol .power then
    let power ← g.exponent
    return .binary (← originFrom start) .exp base power
  else
    return base

/-- The operators that group to the left with the nodes they make, loosest first. Those of one row
have the same precedence. -/
def operators : List (List (Symbol × (Origin → Expr → Expr → Expr))) :=
  [[(.coalesce, .coalesce)],
   [(.or_, (.logical · .or))],
   [(.and_, (.logical · .and))],
   [(.bitOr, (.binary · .bitOr))],
   [(.bitXor, (.binary · .bitXor))],
   [(.bitAnd, (.binary · .bitAnd))],
   [(.equal, (.binary · .looseEq)),
    (.notEqual, (.binary · .looseNe)),
    (.same, (.binary · .strictEq)),
    (.notSame, (.binary · .strictNe))],
   [(.less, (.binary · .less)),
    (.lessEqual, (.binary · .lessEq)),
    (.greater, (.binary · .greater)),
    (.greaterEqual, (.binary · .greaterEq))],
   [(.shiftLeft, (.binary · .shiftLeft)),
    (.shiftRight, (.binary · .shiftRight)),
    (.shiftRightZero, (.binary · .shiftRightZero))],
   [(.plus, (.binary · .add)),
    (.minus, (.binary · .sub))],
   [(.star, (.binary · .mul)),
    (.slash, (.binary · .div)),
    (.percent, (.binary · .rem))]]

abbrev Level := Token.Kind → Option (Origin → Expr → Expr → Expr)

def Level.ofRow (row : List (Symbol × (Origin → Expr → Expr → Expr))) : Level
  | .symbol c => row.lookup c
  | _ => none

def levels : List Level :=
  operators.map Level.ofRow

/-- One more operator of a level with its right operand, behind a left operand that began at
`start`. -/
def levelStep (level : Level) (next : Parse Expr) (start : Nat) (left : Expr) :
    Parse (Option Expr) := do
  match level (← kind) with
  | none => return none
  | some join =>
    let _ ← advance
    let right ← next
    return some (join (← originFrom start) left right)

def ladder (operand : Parse Expr) : List Level → Parse Expr
  | [] => operand
  | level :: rest => do
    let start ← get
    let left ← ladder operand rest
    chain (levelStep level (ladder operand rest) start) (← rounds) left

def conditional : Parse Expr := do
  let start ← get
  let test ← ladder (readExponent g) levels
  if ← eatSymbol .question then
    let yes ← g.assignment
    expect .colon .conditionalColon
    let no ← g.assignment
    return .conditional (← originFrom start) test yes no
  else
    return test

def assignOp? : Token.Kind → Option (Option BinaryOp)
  | .symbol .assign => some none
  | .symbol .plusAssign => some (some .add)
  | .symbol .minusAssign => some (some .sub)
  | .symbol .starAssign => some (some .mul)
  | .symbol .slashAssign => some (some .div)
  | .symbol .percentAssign => some (some .rem)
  | _ => none

def readAssignment : Parse Expr := do
  let start ← get
  let left ← conditional g
  match assignOp? (← kind) with
  | none => return left
  | some op =>
    match left.target? with
    | none => fail .invalidAssignmentTarget
    | some target =>
      let _ ← advance
      let value ← g.assignment
      match op with
      | none => return .assign (← originFrom start) target value
      | some op => return .compound (← originFrom start) op target value

end Grammar

end ScriptEngine
