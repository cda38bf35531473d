import ScriptEngine.Token.Scan

/-!
# Scanning by characters

The scan of a text as a recursion on its characters. Each function returns the characters it takes;
what it leaves is the rest of the text. The first lexeme is a word, a number, a string or the first
symbol of a list that has the longer ones in front. Every position is found by walking over the
characters before it.
-/

namespace ScriptEngine

open Text SyntaxError

namespace Symbol

def all : List Symbol :=
  [.same, .notSame, .shiftRightZero,
   .increment, .plusAssign, .decrement, .minusAssign, .power, .starAssign, .slashAssign,
   .percentAssign, .equal, .notEqual, .shiftLeft, .lessEqual, .shiftRight, .greaterEqual,
   .and_, .or_, .coalesce, .arrow,
   .plus, .minus, .star, .slash, .percent, .assign, .bang, .less, .greater, .question,
   .bitAnd, .bitOr, .bitXor, .bitNot,
   .openParen, .closeParen, .openBrace, .closeBrace, .openBracket, .closeBracket,
   .semicolon, .comma, .dot, .colon]

def longest? (cs : List Char) : Option Symbol :=
  all.find? fun s => s.chars.isPrefixOf cs

theorem mem_all (s : Symbol) : s ∈ all := by
  cases s <;> decide

theorem isPrefixOf_of_longest? {cs : List Char} {s : Symbol} (h : longest? cs = some s) :
    s.chars.isPrefixOf cs = true := by
  unfold longest? at h
  have fits := List.find?_some h
  exact fits

end Symbol

namespace Lexeme

inductive Skipping where
  | blank
  | line
  | block
deriving DecidableEq

def splitGap : Skipping → List Char → List Char × List Char
  | _, [] => ([], [])
  | .blank, '/' :: '/' :: cs =>
    let (gap, rest) := splitGap .line cs
    ('/' :: '/' :: gap, rest)
  | .blank, '/' :: '*' :: cs =>
    let (gap, rest) := splitGap .block cs
    ('/' :: '*' :: gap, rest)
  | .blank, c :: cs =>
    if isGap c then
      let (gap, rest) := splitGap .blank cs
      (c :: gap, rest)
    else ([], c :: cs)
  | .line, c :: cs =>
    let (gap, rest) := splitGap (if c = '\n' then .blank else .line) cs
    (c :: gap, rest)
  | .block, '*' :: '/' :: cs =>
    let (gap, rest) := splitGap .blank cs
    ('*' :: '/' :: gap, rest)
  | .block, c :: cs =>
    let (gap, rest) := splitGap .block cs
    (c :: gap, rest)

/-- Beyond ASCII a word starts with a letter. -/
def isWordStart (c : Char) : Bool :=
  if c.toNat < 128 then c.isAlpha || c = '_' || c = '$' else isLetter c

def isWordPart (c : Char) : Bool :=
  if c.toNat < 128 then c.isAlphanum || c = '_' || c = '$' else isAlphanumeric c

def takeFraction : List Char → List Char
  | '.' :: cs =>
    let ds := cs.takeWhile Numeric.isDigit
    if ds.isEmpty then [] else '.' :: ds
  | _ => []

def takeDecimal (cs : List Char) : List Char :=
  let whole := cs.takeWhile Numeric.isDigit
  let fraction := takeFraction (cs.drop whole.length)
  let mantissa := whole ++ fraction
  mantissa ++ Numeric.takeExponent (cs.drop mantissa.length)

def unescape (c : Char) : Char :=
  if c = 'n' then '\n'
  else if c = 't' then '\t'
  else if c = 'r' then '\r'
  else c

/-- The body of a string behind its opening quote: the characters up to and including the closing
quote, and the value they stand for. A backslash that ends the text stands for nothing. -/
def takeString (quote : Char) : List Char → List Char × List Char
  | [] => ([], [])
  | ['\\'] => (['\\'], [])
  | '\\' :: c :: cs =>
    let (text, value) := takeString quote cs
    ('\\' :: c :: text, unescape c :: value)
  | c :: cs =>
    if c = quote then ([c], [])
    else
      let (text, value) := takeString quote cs
      (c :: text, c :: value)

end Lexeme

structure Lexeme where
  kind : Token.Kind
  text : List Char
deriving DecidableEq, Inhabited

namespace Lexeme

def word (cs : List Char) : Lexeme :=
  let text := cs.takeWhile isWordPart
  let spelling := String.ofList text
  match Keyword.ofText? spelling with
  | some k => ⟨.keyword k, text⟩
  | none => ⟨.identifier spelling, text⟩

structure Refusal where
  cause : Cause
  text : List Char
deriving DecidableEq, Inhabited

/-- A number. Only the hexadecimal form must have digits behind its mark. -/
def number (cs : List Char) : Except Refusal Lexeme :=
  match cs with
  | '0' :: c :: rest =>
    match Numeric.radixOfMark? c with
    | some radix =>
      let ds := rest.takeWhile (Numeric.isRadixDigit radix)
      if ds.isEmpty ∧ radix = 16 then .error ⟨.emptyHexadecimal, ['0', c]⟩
      else .ok ⟨.number (NumberForm.ofRadix radix), '0' :: c :: ds⟩
    | none => .ok ⟨.number .decimal, takeDecimal cs⟩
  | _ => .ok ⟨.number .decimal, takeDecimal cs⟩

def next (c : Char) (cs : List Char) : Except Refusal Lexeme :=
  if isQuote c then
    let (text, value) := takeString c cs
    .ok ⟨.string (String.ofList value), c :: text⟩
  else if Numeric.isDigit c then number (c :: cs)
  else if isWordStart c then .ok (word (c :: cs))
  else
    match Symbol.longest? (c :: cs) with
    | some s => .ok ⟨.symbol s, s.chars⟩
    | none => .error ⟨.unexpectedCharacter c, [c]⟩

end Lexeme

namespace Lexeme

theorem splitGap_append (mode : Skipping) (cs : List Char) :
    (splitGap mode cs).1 ++ (splitGap mode cs).2 = cs := by
  fun_induction splitGap mode cs <;> simp_all

theorem length_splitGap_le (mode : Skipping) (cs : List Char) :
    (splitGap mode cs).2.length ≤ cs.length := by
  have h := congrArg List.length (splitGap_append mode cs)
  rw [List.length_append] at h
  omega

end Lexeme

namespace Token

def ofLexeme (lx : Lexeme) (start : Position) : Token :=
  ⟨lx.kind, String.ofList lx.text, start.spanTo (start.advance lx.text)⟩

def ofRefusal (refusal : Lexeme.Refusal) (start : Position) : Fault :=
  ⟨refusal.cause, start.spanTo (start.advance refusal.text), some (String.ofList refusal.text)⟩

def scanFrom (p : Position) (cs : List Char) : Except Fault (List Token) :=
  match _split : (Lexeme.splitGap .blank cs).2 with
  | [] => .ok [atEnd (p.advance (Lexeme.splitGap .blank cs).1)]
  | c :: rest =>
    let start := p.advance (Lexeme.splitGap .blank cs).1
    match Lexeme.next c rest with
    | .error refusal => .error (ofRefusal refusal start)
    | .ok lexeme =>
      match scanFrom (start.advance lexeme.text) (rest.drop (lexeme.text.length - 1)) with
      | .error fault => .error fault
      | .ok tokens => .ok (ofLexeme lexeme start :: tokens)
termination_by cs.length
decreasing_by
  have := Lexeme.length_splitGap_le .blank cs
  rw [_split] at this
  simp only [List.length_cons, List.length_drop] at *
  omega

end Token

end ScriptEngine
