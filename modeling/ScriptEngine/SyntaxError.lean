import ScriptEngine.Token.Basic

/-!
# Errors in the text of a program

Scanning and parsing stop at the first fault. A fault has a cause and a place; the report adds the
name of the source and the line of text. Each cause has a code, and the code decides the category.
-/

namespace ScriptEngine

open Text

structure ErrorCode where
  number : Nat
deriving DecidableEq, Inhabited

inductive ErrorCategory where
  | lexical
  | grammatical
deriving DecidableEq, Inhabited

namespace ErrorCategory

def name : ErrorCategory → String
  | .lexical => "lexical"
  | .grammatical => "syntax"

end ErrorCategory

namespace ErrorCode

def category (c : ErrorCode) : ErrorCategory :=
  if 100 ≤ c.number ∧ c.number ≤ 149 then .lexical else .grammatical

def render (c : ErrorCode) : String :=
  "E" ++ toString c.number

end ErrorCode

inductive Expectation where
  | blockStart | blockEnd
  | declaredName | functionName | parameterListStart | parameterName | parameterListEnd
  | ifStart | ifEnd
  | whileStart | whileEnd
  | forStart | forInitEnd | forConditionEnd | forEnd
  | switchStart | switchEnd | switchBodyStart | caseEnd | switchBodyEnd
  | catchName | catchEnd
  | conditionalColon
  | argumentListStart | argumentListEnd
  | propertyName | indexEnd | groupEnd | arrayEnd
  | objectKey | objectColon | objectEnd
deriving DecidableEq, Inhabited

namespace Expectation

def phrase : Expectation → String
  | .blockStart => "'\x7b' to start block"
  | .blockEnd => "'\x7d' after block"
  | .declaredName => "identifier"
  | .functionName => "function name"
  | .parameterListStart => "'(' after function name"
  | .parameterName => "parameter name"
  | .parameterListEnd => "')' after parameters"
  | .ifStart => "'(' after 'if'"
  | .ifEnd => "')' after if condition"
  | .whileStart => "'(' after 'while'"
  | .whileEnd => "')' after while condition"
  | .forStart => "'(' after 'for'"
  | .forInitEnd => "';' after for loop init"
  | .forConditionEnd => "';' after for loop condition"
  | .forEnd => "')' after for clauses"
  | .switchStart => "'(' after 'switch'"
  | .switchEnd => "')' after switch discriminant"
  | .switchBodyStart => "'\x7b' before switch body"
  | .caseEnd => "':' after case"
  | .switchBodyEnd => "'\x7d' after switch body"
  | .catchName => "catch parameter name"
  | .catchEnd => "')' after catch parameter"
  | .conditionalColon => "':' in conditional expression"
  | .argumentListStart => "'('"
  | .argumentListEnd => "')' after arguments"
  | .propertyName => "property name after '.'"
  | .indexEnd => "']' after computed property"
  | .groupEnd => "')' after expression"
  | .arrayEnd => "']' after array elements"
  | .objectKey => "property name in object literal"
  | .objectColon => "':' after property name"
  | .objectEnd => "'\x7d' after object literal"

end Expectation

inductive Side where
  | before
  | after
deriving DecidableEq, Inhabited

def Side.name : Side → String
  | .before => "prefix"
  | .after => "postfix"

namespace SyntaxError

inductive Cause where
  | unexpectedCharacter (c : Char)
  | emptyHexadecimal
  | unexpectedToken (description : String)
  | expected (what : Expectation)
  | invalidAssignmentTarget
  | invalidUpdateTarget (side : Side)
  | missingCatchOrFinally
  | invalidSwitchCase
  | tooDeep
deriving DecidableEq, Inhabited

namespace Cause

def code : Cause → ErrorCode
  | .unexpectedCharacter _ => ⟨100⟩
  | .emptyHexadecimal => ⟨101⟩
  | .unexpectedToken _ => ⟨150⟩
  | .expected _ => ⟨151⟩
  | .invalidAssignmentTarget => ⟨152⟩
  | .invalidUpdateTarget _ => ⟨153⟩
  | .missingCatchOrFinally => ⟨154⟩
  | .invalidSwitchCase => ⟨155⟩
  | .tooDeep => ⟨199⟩

def message : Cause → String
  | .unexpectedCharacter c => "Unexpected character: '" ++ c.toString ++ "'"
  | .emptyHexadecimal => "Invalid hexadecimal number"
  | .unexpectedToken description => "Unexpected token: " ++ description
  | .expected what => "Expected " ++ what.phrase
  | .invalidAssignmentTarget => "Invalid assignment target"
  | .invalidUpdateTarget side =>
    "Invalid left-hand side expression in " ++ side.name ++ " operation"
  | .missingCatchOrFinally => "Missing catch or finally after try"
  | .invalidSwitchCase => "Expected 'case' or 'default' in switch statement"
  | .tooDeep => "Nesting too deep"

end Cause

structure Fault where
  cause : Cause
  span : Span
  found : Option String
deriving DecidableEq, Inhabited

def Fault.atToken (cause : Cause) (t : Token) : Fault :=
  ⟨cause, t.span, t.described?⟩

end SyntaxError

structure SyntaxError where
  file : String
  cause : SyntaxError.Cause
  line : Nat
  column : Nat
  token : Option String
  sourceLine : String
deriving DecidableEq, Inhabited

namespace SyntaxError

def Fault.report (f : Fault) (source : Source) : SyntaxError where
  file := source.name
  cause := f.cause
  line := f.span.line
  column := f.span.column
  token := f.found
  sourceLine := (source.line? f.span.line).getD ""

def code (e : SyntaxError) : ErrorCode :=
  e.cause.code

def category (e : SyntaxError) : ErrorCategory :=
  e.code.category

def message (e : SyntaxError) : String :=
  e.cause.message

def atEnd (e : SyntaxError) : Bool :=
  e.token.isNone

def render (e : SyntaxError) : String :=
  "[" ++ toString e.line ++ ":" ++ toString e.column ++ "] " ++ e.message ++ " (Token: " ++
    e.token.getD "EOF" ++ ")"

end SyntaxError

end ScriptEngine
