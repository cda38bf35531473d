/-!
# Operators and punctuation

Every fixed spelling that is not a word.
-/

namespace ScriptEngine

inductive Symbol where
  | plus | increment | plusAssign
  | minus | decrement | minusAssign
  | star | power | starAssign
  | slash | slashAssign
  | percent | percentAssign
  | assign | equal | same
  | bang | notEqual | notSame
  | less | lessEqual | greater | greaterEqual
  | and_ | or_ | question | coalesce | arrow
  | bitAnd | bitOr | bitXor | bitNot
  | shiftLeft | shiftRight | shiftRightZero
  | openParen | closeParen | openBrace | closeBrace | openBracket | closeBracket
  | semicolon | comma | dot | colon
deriving DecidableEq, Inhabited

namespace Symbol

def text : Symbol → String
  | .plus => "+"
  | .increment => "++"
  | .plusAssign => "+="
  | .minus => "-"
  | .decrement => "--"
  | .minusAssign => "-="
  | .star => "*"
  | .power => "**"
  | .starAssign => "*="
  | .slash => "/"
  | .slashAssign => "/="
  | .percent => "%"
  | .percentAssign => "%="
  | .assign => "="
  | .equal => "=="
  | .same => "==="
  | .bang => "!"
  | .notEqual => "!="
  | .notSame => "!=="
  | .less => "<"
  | .lessEqual => "<="
  | .greater => ">"
  | .greaterEqual => ">="
  | .and_ => "&&"
  | .or_ => "||"
  | .question => "?"
  | .coalesce => "??"
  | .arrow => "=>"
  | .bitAnd => "&"
  | .bitOr => "|"
  | .bitXor => "^"
  | .bitNot => "~"
  | .shiftLeft => "<<"
  | .shiftRight => ">>"
  | .shiftRightZero => ">>>"
  | .openParen => "("
  | .closeParen => ")"
  | .openBrace => "\x7b"
  | .closeBrace => "\x7d"
  | .openBracket => "["
  | .closeBracket => "]"
  | .semicolon => ";"
  | .comma => ","
  | .dot => "."
  | .colon => ":"

def chars (s : Symbol) : List Char :=
  s.text.toList

end Symbol

end ScriptEngine
