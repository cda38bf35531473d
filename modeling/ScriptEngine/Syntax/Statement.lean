import ScriptEngine.Syntax.Expression

/-!
# Reading statements

A keyword decides which statement follows; everything else is an expression. Semicolons may be left
out.
-/

namespace ScriptEngine

open SyntaxError Parse

namespace Grammar

variable (g : Grammar)

def semicolon : Parse Unit := do
  let _ ← eatSymbol .semicolon

def declarator : Parse Declarator := do
  let name ← expectName .declaredName
  let init ← behind (.symbol .assign) g.assignment
  return .mk name init

def bindingKindOf : Token.Kind → BindingKind
  | .keyword .let_ => .let_
  | .keyword .const => .const
  | _ => .var

def declaration : Parse (BindingKind × List Declarator) := do
  let kind := bindingKindOf (← advance).kind
  let declarators ← separated (declarator g) (← rounds)
  return (kind, declarators)

def declarationStatement : Parse Stmt := do
  let start ← get
  let (kind, declarators) ← declaration g
  semicolon
  return .declaration (← originFrom start) kind declarators

def functionDeclaration : Parse Stmt := do
  let start ← get
  let _ ← advance
  let name ← expectName .functionName
  let (params, body) ← functionRest g
  return .function (← originFrom start) name (.mk (some name) params body)

def blockStatement : Parse Stmt := do
  let start ← get
  let body ← block g
  return .block (← originFrom start) body

def branchStatement : Parse Stmt := do
  let start ← get
  let _ ← advance
  expect .openParen .ifStart
  let condition ← g.assignment
  expect .closeParen .ifEnd
  let yes ← g.statement
  let no ← behind (.keyword .else_) g.statement
  return .branch (← originFrom start) condition yes no

def whileStatement : Parse Stmt := do
  let start ← get
  let _ ← advance
  expect .openParen .whileStart
  let condition ← g.assignment
  expect .closeParen .whileEnd
  let body ← g.statement
  return .whileLoop (← originFrom start) condition body

def startsDeclaration (k : Token.Kind) : Bool :=
  k == .keyword .var || k == .keyword .let_ || k == .keyword .const

def forInit : Parse (Option Stmt) := do
  if ← eatSymbol .semicolon then
    return none
  else
    let start ← get
    if startsDeclaration (← kind) then
      let (kind, declarators) ← declaration g
      let init := Stmt.declaration (← originFrom start) kind declarators
      expect .semicolon .forInitEnd
      return some init
    else
      let expr ← g.assignment
      let init := Stmt.expression (← originFrom start) expr
      expect .semicolon .forInitEnd
      return some init

def expressionUnless (s : Symbol) : Parse (Option Expr) :=
  unlessAt s none (some <$> g.assignment)

def forStatement : Parse Stmt := do
  let start ← get
  let _ ← advance
  expect .openParen .forStart
  let init ← forInit g
  let condition ← expressionUnless g .semicolon
  expect .semicolon .forConditionEnd
  let update ← expressionUnless g .closeParen
  expect .closeParen .forEnd
  let body ← g.statement
  return .forLoop (← originFrom start) init condition update body

def caseTest : Parse (Option Expr) := do
  if ← eatKeyword .case then
    some <$> g.assignment
  else if ← eatKeyword .default_ then
    return none
  else
    fail .invalidSwitchCase

def endsCase (k : Token.Kind) : Bool :=
  k == .keyword .case || k == .keyword .default_ || k == .symbol .closeBrace || k == .endOfInput

def switchCase : Parse SwitchCase := do
  let test ← caseTest g
  expect .colon .caseEnd
  let body ← manyUntil endsCase g.statement (← rounds)
  return .mk test body

def switchStatement : Parse Stmt := do
  let start ← get
  let _ ← advance
  expect .openParen .switchStart
  let discriminant ← g.assignment
  expect .closeParen .switchEnd
  expect .openBrace .switchBodyStart
  let cases ← manyUntil (fun k => k == .symbol .closeBrace || k == .endOfInput) (switchCase g)
    (← rounds)
  expect .closeBrace .switchBodyEnd
  return .switch (← originFrom start) discriminant cases

def jumpStatement (build : Origin → Stmt) : Parse Stmt := do
  let start ← get
  let _ ← advance
  semicolon
  return build (← originFrom start)

def raiseStatement : Parse Stmt := do
  let start ← get
  let _ ← advance
  let value ← g.assignment
  semicolon
  return .raise (← originFrom start) value

def handlerParam : Parse (Option Ident) := do
  if ← eatSymbol .openParen then
    let param ← unlessAt .closeParen none (some <$> expectName .catchName)
    expect .closeParen .catchEnd
    return param
  else
    return none

def handler : Parse (Option Handler) :=
  behind (.keyword .catch_) do
    let param ← handlerParam
    let body ← block g
    return .mk param body

def finalizer : Parse (Option Block) :=
  behind (.keyword .finally_) (block g)

def attemptStatement : Parse Stmt := do
  let start ← get
  let _ ← advance
  let body ← block g
  let caught ← handler g
  let final ← finalizer g
  if caught.isNone && final.isNone then
    fail .missingCatchOrFinally
  else
    return .attempt (← originFrom start) body caught final

def endsReturn (k : Token.Kind) : Bool :=
  k == .symbol .semicolon || k == .symbol .closeBrace || k == .endOfInput

def returnValue : Parse (Option Expr) := do
  if endsReturn (← kind) then return none else some <$> g.assignment

def returnStatement : Parse Stmt := do
  let start ← get
  let _ ← advance
  let value ← returnValue g
  semicolon
  return .giveBack (← originFrom start) value

def emptyStatement : Parse Stmt := do
  let start ← get
  let _ ← advance
  return .empty (← originFrom start)

def expressionStatement : Parse Stmt := do
  let start ← get
  let expr ← readAssignment g
  semicolon
  return .expression (← originFrom start) expr

def readStatement : Parse Stmt := do
  match ← kind with
  | .keyword .var | .keyword .let_ | .keyword .const => declarationStatement g
  | .keyword .function => functionDeclaration g
  | .symbol .openBrace => blockStatement g
  | .keyword .if_ => branchStatement g
  | .keyword .while_ => whileStatement g
  | .keyword .for_ => forStatement g
  | .keyword .switch => switchStatement g
  | .keyword .break_ => jumpStatement .breakLoop
  | .keyword .continue_ => jumpStatement .continueLoop
  | .keyword .throw_ => raiseStatement g
  | .keyword .try_ => attemptStatement g
  | .keyword .return_ => returnStatement g
  | .symbol .semicolon => emptyStatement
  | _ => expressionStatement g

def deeper : Grammar where
  assignment := readAssignment g
  exponent := readExponent g
  unary := readUnary g
  member := readMember g
  statement := readStatement g

def upTo : Nat → Grammar
  | 0 => exhausted
  | n + 1 => deeper (upTo n)

end Grammar

end ScriptEngine
