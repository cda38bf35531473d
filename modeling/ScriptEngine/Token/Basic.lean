import ScriptEngine.Numeric.Reading
import ScriptEngine.Text.Source
import ScriptEngine.Token.Keyword
import ScriptEngine.Token.Symbol

/-!
# Tokens

A token has a kind, the characters it was written with, and their place in the source. Kinds of
literals carry what the characters stand for, except that numbers keep their spelling until the
parser asks for the value.
-/

namespace ScriptEngine

open Text

inductive NumberForm where
  | decimal
  | hexadecimal
  | octal
  | binary
deriving DecidableEq, Inhabited

namespace NumberForm

def describe : NumberForm → String
  | .decimal => "number"
  | .hexadecimal => "hex number"
  | .octal => "octal number"
  | .binary => "binary number"

def radix? : NumberForm → Option Nat
  | .decimal => none
  | .hexadecimal => some 16
  | .octal => some 8
  | .binary => some 2

def ofRadix (radix : Nat) : NumberForm :=
  if radix = 16 then .hexadecimal
  else if radix = 8 then .octal
  else if radix = 2 then .binary
  else .decimal

/-- The value of a spelling. A form with a mark has its digits behind the first two bytes, and no
value without digits. -/
def value? (form : NumberForm) (text : String) : Option Float :=
  match form.radix? with
  | none => Numeric.readFloat? text.toList
  | some radix =>
    match dropBytes 2 text.toList with
    | none => none
    | some [] => none
    | some ds => Numeric.readRadix? radix ds

end NumberForm

namespace Token

inductive Kind where
  | number (form : NumberForm)
  | string (value : String)
  | identifier (name : String)
  | keyword (word : Keyword)
  | symbol (mark : Symbol)
  | endOfInput
deriving DecidableEq, Inhabited

namespace Kind

def fixedText? : Kind → Option String
  | .keyword word => some word.text
  | .symbol mark => some mark.text
  | _ => none

def isKeyword : Kind → Bool
  | .keyword .var | .keyword .let_ | .keyword .const | .keyword .function
  | .keyword .if_ | .keyword .else_ | .keyword .while_ | .keyword .for_ | .keyword .return_
  | .keyword .switch | .keyword .case | .keyword .default_ | .keyword .break_
  | .keyword .continue_ | .keyword .throw_ | .keyword .try_ | .keyword .catch_
  | .keyword .finally_ | .keyword .new
  | .keyword .true_ | .keyword .false_ | .keyword .null | .keyword .this | .keyword .typeof => true
  | _ => false

@[simp] theorem isKeyword_keyword (word : Keyword) : (Kind.keyword word).isKeyword = true := by
  cases word <;> rfl

def describe : Kind → String
  | .number form => form.describe
  | .string value => "\"" ++ value ++ "\""
  | .identifier name => name
  | .keyword word => word.text
  | .symbol mark => mark.text
  | .endOfInput => "EOF"

def literalValue? (kind : Kind) (text : String) : Option Float :=
  match kind with
  | .number form => form.value? text
  | _ => none

end Kind

end Token

structure Token where
  kind : Token.Kind
  text : String
  span : Span
deriving DecidableEq, Inhabited

namespace Token

def atEnd (p : Position) : Token :=
  ⟨.endOfInput, "", Span.point p.offset p.line p.column⟩

def isEnd (t : Token) : Bool :=
  t.kind == .endOfInput

/-- How the token is named in diagnostics: strings by their value, all others by their spelling. -/
def describe (t : Token) : String :=
  match t.kind with
  | .endOfInput => "EOF"
  | .string value => value
  | _ => t.text

def described? (t : Token) : Option String :=
  if t.isEnd then none else some t.describe

def literalValue? (t : Token) : Option Float :=
  t.kind.literalValue? t.text

end Token

end ScriptEngine
