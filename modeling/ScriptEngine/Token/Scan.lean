import ScriptEngine.SyntaxError
import ScriptEngine.Text.CharSet
import ScriptEngine.Text.Utf8

/-!
# Scanning

A source text becomes its tokens by a walk over its bytes. What the scanner keeps is its place: the
offset of the next byte, with the line and the column. Tokens are found by longest match, with at
most two bytes of lookahead; a whole character is decoded only where a word may begin or go on
beyond ASCII. Strings end at their first unescaped quote or with the text. The first refused
character ends the scan.
-/

namespace ScriptEngine

open Text SyntaxError

/-- Bytes between tokens; beyond them only comments are skipped. -/
def Lexeme.isGap (c : Char) : Bool :=
  c = ' ' || c = '\t' || c = '\r' || c = '\n' || c = '\x0b' || c = '\x0c'

def Lexeme.isQuote (c : Char) : Bool :=
  c = '"' || c = '\x27'

def Lexeme.unescapeByte (b : UInt8) : UInt8 :=
  if b = 0x6E then 0x0A
  else if b = 0x74 then 0x09
  else if b = 0x72 then 0x0D
  else b

namespace Scanner

variable (source : ByteArray)

section Bytes

def peek (p : Position) : Option UInt8 :=
  source[p.offset]?

def peekAt (k : Nat) (p : Position) : Option UInt8 :=
  source[p.offset + k]?

def advance (p : Position) : Position :=
  match peek source p with
  | some b => p.stepByte b
  | none => p

def skip : Nat → Position → Position
  | 0, p => p
  | n + 1, p => skip n (advance source p)

def charAt (offset : Nat) : Option Char :=
  source.utf8DecodeChar? offset

def textFrom (start p : Position) : String :=
  (String.fromUTF8? (source.extract start.offset p.offset)).getD ""

def make (kind : Token.Kind) (start p : Position) : Token :=
  ⟨kind, textFrom source start p, start.spanTo p⟩

def fault (cause : Cause) (start p : Position) : Fault :=
  ⟨cause, start.spanTo p, some (textFrom source start p)⟩

def left (p : Position) : Nat :=
  source.size - p.offset

theorem lt_size_of_peek {p : Position} {b : UInt8} (h : peek source p = some b) :
    p.offset < source.size :=
  (getElem?_eq_some_iff.1 h).1

theorem offset_advance {p : Position} {b : UInt8} (h : peek source p = some b) :
    (advance source p).offset = p.offset + 1 := by
  unfold advance
  rw [h]
  exact Position.offset_stepByte p b

theorem offset_le_advance (p : Position) : p.offset ≤ (advance source p).offset := by
  unfold advance
  split
  · rw [Position.offset_stepByte]
    omega
  · exact Nat.le_refl _

theorem offset_le_skip (n : Nat) (p : Position) : p.offset ≤ (skip source n p).offset := by
  induction n generalizing p with
  | zero => exact Nat.le_refl _
  | succ n ih => exact Nat.le_trans (offset_le_advance source p) (ih _)

theorem left_lt {p q : Position} {b : UInt8} (h : peek source p = some b)
    (hlt : p.offset < q.offset) : left source q < left source p := by
  have := lt_size_of_peek source h
  unfold left
  omega

theorem left_advance_lt {p : Position} {b : UInt8} (h : peek source p = some b) :
    left source (advance source p) < left source p := by
  apply left_lt source h
  rw [offset_advance source h]
  omega

end Bytes

section Loops

def skipWhile (test : UInt8 → Bool) (p : Position) : Position :=
  match _h : peek source p with
  | some b => if test b then skipWhile test (advance source p) else p
  | none => p
termination_by left source p
decreasing_by exact left_advance_lt source _h

theorem offset_le_skipWhile (test : UInt8 → Bool) (p : Position) :
    p.offset ≤ (skipWhile source test p).offset := by
  fun_induction skipWhile source test p with
  | case1 p b _ _ ih => exact Nat.le_trans (offset_le_advance source p) ih
  | case2 => exact Nat.le_refl _
  | case3 => exact Nat.le_refl _

theorem offset_lt_skipWhile {test : UInt8 → Bool} {p : Position} {b : UInt8}
    (h : peek source p = some b) (hb : test b = true) :
    p.offset < (skipWhile source test p).offset := by
  have hle := offset_le_skipWhile source test (advance source p)
  rw [offset_advance source h] at hle
  unfold skipWhile
  split
  next b' hb' =>
    cases h.symm.trans hb'
    rw [if_pos hb]
    omega
  next hnone => cases h.symm.trans hnone

def skipComment (p : Position) : Position :=
  match _h : peek source p with
  | none => p
  | some b =>
    if b = '*'.toUInt8 ∧ peekAt source 1 p = some '/'.toUInt8 then
      advance source (advance source p)
    else skipComment (advance source p)
termination_by left source p
decreasing_by exact left_advance_lt source _h

theorem offset_le_skipComment (p : Position) : p.offset ≤ (skipComment source p).offset := by
  fun_induction skipComment source p with
  | case1 => exact Nat.le_refl _
  | case2 p =>
    exact Nat.le_trans (offset_le_advance source p) (offset_le_advance source _)
  | case3 p _ _ _ ih => exact Nat.le_trans (offset_le_advance source p) ih

def skipGap (p : Position) : Position :=
  match _h : peek source p with
  | none => p
  | some b =>
    if Lexeme.isGap (Char.ofUInt8 b) then skipGap (advance source p)
    else if _hline : b = '/'.toUInt8 ∧ peekAt source 1 p = some '/'.toUInt8 then
      skipGap (skipWhile source (· ≠ '\n'.toUInt8) p)
    else if b = '/'.toUInt8 ∧ peekAt source 1 p = some '*'.toUInt8 then
      skipGap (skipComment source (advance source (advance source p)))
    else p
termination_by left source p
decreasing_by
  · exact left_advance_lt source _h
  · apply left_lt source _h
    apply offset_lt_skipWhile source _h
    rw [_hline.1]
    rfl
  · apply left_lt source _h
    have hlt := offset_advance source _h
    have hle := offset_le_advance source (advance source p)
    have hcomment := offset_le_skipComment source (advance source (advance source p))
    omega

theorem offset_le_skipGap (p : Position) : p.offset ≤ (skipGap source p).offset := by
  fun_induction skipGap source p with
  | case1 => exact Nat.le_refl _
  | case2 p _ _ _ ih => exact Nat.le_trans (offset_le_advance source p) ih
  | case3 p _ _ _ _ ih => exact Nat.le_trans (offset_le_skipWhile source _ p) ih
  | case4 p _ _ _ _ _ ih =>
    have hle := offset_le_advance source p
    have hle' := offset_le_advance source (advance source p)
    have hcomment := offset_le_skipComment source (advance source (advance source p))
    omega
  | case5 => exact Nat.le_refl _

/-- ASCII letters, digits, underscores and dollar signs. -/
def isWordByte (b : UInt8) : Bool :=
  let c := Char.ofUInt8 b
  c.isAlphanum || c = '_' || c = '$'

def skipWord (p : Position) : Position :=
  match _h : peek source p with
  | none => p
  | some b =>
    if isWordByte b then skipWord (advance source p)
    else
      match charAt source p.offset with
      | some c =>
        if _hc : 128 ≤ c.toNat ∧ isAlphanumeric c then skipWord (skip source c.utf8Size p) else p
      | none => p
termination_by left source p
decreasing_by
  · exact left_advance_lt source _h
  · obtain ⟨n, hn⟩ := Nat.exists_eq_succ_of_ne_zero (Nat.ne_of_gt c.utf8Size_pos)
    apply left_lt source _h
    have hlt := offset_advance source _h
    have hle := offset_le_skip source n (advance source p)
    rw [hn, skip]
    omega

theorem offset_le_skipWord (p : Position) : p.offset ≤ (skipWord source p).offset := by
  fun_induction skipWord source p with
  | case1 => exact Nat.le_refl _
  | case2 p _ _ _ ih => exact Nat.le_trans (offset_le_advance source p) ih
  | case3 p _ _ _ c _ _ ih => exact Nat.le_trans (offset_le_skip source _ p) ih
  | case4 => exact Nat.le_refl _
  | case5 => exact Nat.le_refl _

def takeString (quote : UInt8) (buffer : Array UInt8) (p : Position) : Array UInt8 × Position :=
  match _h : peek source p with
  | none => (buffer, p)
  | some b =>
    if b = quote then (buffer, advance source p)
    else if b = '\\'.toUInt8 then
      match peek source (advance source p) with
      | some escaped =>
        takeString quote (buffer.push (Lexeme.unescapeByte escaped))
          (advance source (advance source p))
      | none => (buffer, advance source p)
    else takeString quote (buffer.push b) (advance source p)
termination_by left source p
decreasing_by
  · apply left_lt source _h
    have hlt := offset_advance source _h
    have hle := offset_le_advance source (advance source p)
    omega
  · exact left_advance_lt source _h

theorem offset_le_takeString (quote : UInt8) (buffer : Array UInt8) (p : Position) :
    p.offset ≤ (takeString source quote buffer p).2.offset := by
  fun_induction takeString source quote buffer p with
  | case1 => exact Nat.le_refl _
  | case2 => exact offset_le_advance source _
  | case3 _ p _ _ _ _ ih =>
    have hle := offset_le_advance source p
    have hle' := offset_le_advance source (advance source p)
    omega
  | case4 => exact offset_le_advance source _
  | case5 _ p _ _ _ _ ih => exact Nat.le_trans (offset_le_advance source p) ih

end Loops

section Numbers

def skipDigits (p : Position) : Position :=
  skipWhile source (fun b => Numeric.isDigit (Char.ofUInt8 b)) p

theorem offset_le_skipDigits (p : Position) : p.offset ≤ (skipDigits source p).offset :=
  offset_le_skipWhile source _ p

def sees (test : Char → Bool) (k : Nat) (p : Position) : Bool :=
  (peekAt source k p).any fun b => test (Char.ofUInt8 b)

/-- A point counts only if a digit follows it. -/
def skipFraction (p : Position) : Position :=
  if sees source (· = '.') 0 p ∧ sees source Numeric.isDigit 1 p then
    skipDigits source (advance source p)
  else p

def skipExponent (p : Position) : Position :=
  if sees source (fun c => c = 'e' || c = 'E') 0 p then
    let mark := if sees source (fun c => c = '+' || c = '-') 1 p then 2 else 1
    if sees source Numeric.isDigit mark p then skipDigits source (skip source mark p) else p
  else p

theorem offset_le_skipFraction (p : Position) : p.offset ≤ (skipFraction source p).offset := by
  unfold skipFraction
  split
  · exact Nat.le_trans (offset_le_advance source p) (offset_le_skipDigits source _)
  · exact Nat.le_refl _

theorem offset_le_skipExponent (p : Position) : p.offset ≤ (skipExponent source p).offset := by
  unfold skipExponent
  split
  · extract_lets mark
    split
    · exact Nat.le_trans (offset_le_skip source mark p) (offset_le_skipDigits source _)
    · exact Nat.le_refl _
  · exact Nat.le_refl _

def radixForm? (mark : UInt8) : Option (Nat × NumberForm) :=
  match Char.ofUInt8 mark with
  | 'x' | 'X' => some (16, .hexadecimal)
  | 'o' | 'O' => some (8, .octal)
  | 'b' | 'B' => some (2, .binary)
  | _ => none

/-- A number behind its first digit. Only the hexadecimal form must have digits behind its mark. -/
def scanNumber (first : UInt8) (start p : Position) : Except Fault (Token × Position) :=
  match if first = '0'.toUInt8 then (peek source p).bind radixForm? else none with
  | some (radix, form) =>
    let digits := advance source p
    let stop := skipWhile source (fun b => Numeric.isRadixDigit radix (Char.ofUInt8 b)) digits
    if stop.offset = digits.offset ∧ radix = 16 then
      .error (fault source .emptyHexadecimal start stop)
    else .ok (make source (.number form) start stop, stop)
  | none =>
    let stop := skipExponent source (skipFraction source (skipDigits source p))
    .ok (make source (.number .decimal) start stop, stop)

end Numbers

section Tokens

def scanWord (start p : Position) : Token × Position :=
  let stop := skipWord source p
  let text := textFrom source start stop
  let kind : Token.Kind :=
    match Keyword.ofText? text with
    | some k => .keyword k
    | none => .identifier text
  (make source kind start stop, stop)

def scanString (quote : UInt8) (start p : Position) : Token × Position :=
  let (buffer, stop) := takeString source quote #[] p
  (make source (.string (String.ofList (lossy buffer.toList))) start stop, stop)

def eat (expected : Char) : StateM Position Bool := fun p =>
  if peek source p = some expected.toUInt8 then (true, advance source p) else (false, p)

def symbol? (first : UInt8) : StateM Position (Option Symbol) := do
  match Char.ofUInt8 first with
  | '+' =>
    if ← eat source '+' then return some .increment
    else if ← eat source '=' then return some .plusAssign
    else return some .plus
  | '-' =>
    if ← eat source '-' then return some .decrement
    else if ← eat source '=' then return some .minusAssign
    else return some .minus
  | '*' =>
    if ← eat source '*' then return some .power
    else if ← eat source '=' then return some .starAssign
    else return some .star
  | '/' => if ← eat source '=' then return some .slashAssign else return some .slash
  | '%' => if ← eat source '=' then return some .percentAssign else return some .percent
  | '?' => if ← eat source '?' then return some .coalesce else return some .question
  | '=' =>
    if ← eat source '=' then
      if ← eat source '=' then return some .same else return some .equal
    else if ← eat source '>' then return some .arrow
    else return some .assign
  | '!' =>
    if ← eat source '=' then
      if ← eat source '=' then return some .notSame else return some .notEqual
    else return some .bang
  | '<' =>
    if ← eat source '<' then return some .shiftLeft
    else if ← eat source '=' then return some .lessEqual
    else return some .less
  | '>' =>
    if ← eat source '>' then
      if ← eat source '>' then return some .shiftRightZero else return some .shiftRight
    else if ← eat source '=' then return some .greaterEqual
    else return some .greater
  | '&' => if ← eat source '&' then return some .and_ else return some .bitAnd
  | '|' => if ← eat source '|' then return some .or_ else return some .bitOr
  | '^' => return some .bitXor
  | '~' => return some .bitNot
  | '(' => return some .openParen
  | ')' => return some .closeParen
  | '\x7b' => return some .openBrace
  | '\x7d' => return some .closeBrace
  | '[' => return some .openBracket
  | ']' => return some .closeBracket
  | ';' => return some .semicolon
  | ',' => return some .comma
  | '.' => return some .dot
  | ':' => return some .colon
  | _ => return none

def scanFirst (b : UInt8) (start : Position) : Except Fault (Token × Position) :=
  let p := advance source start
  let c := Char.ofUInt8 b
  if Lexeme.isQuote c then .ok (scanString source b start p)
  else if Numeric.isDigit c then scanNumber source b start p
  else if c.isAlpha || c = '_' || c = '$' then .ok (scanWord source start p)
  else if 0x80 ≤ b then
    let wide := (charAt source start.offset).getD '\uFFFD'
    let p := skip source (wide.utf8Size - 1) p
    if isLetter wide then .ok (scanWord source start p)
    else .error (fault source (.unexpectedCharacter wide) start p)
  else
    match symbol? source b p with
    | (some mark, stop) => .ok (make source (.symbol mark) start stop, stop)
    | (none, stop) => .error (fault source (.unexpectedCharacter c) start stop)

def scanToken (p : Position) : Except Fault (Token × Position) :=
  let start := skipGap source p
  match peek source start with
  | none => .ok (Token.atEnd start, start)
  | some b => scanFirst source b start

/-- Whether a scanner never goes back. -/
def Forward {α : Type} (scanner : StateM Position α) : Prop :=
  ∀ p, p.offset ≤ (scanner p).2.offset

theorem forward_pure {α : Type} (a : α) : Forward (pure a) :=
  fun _ => Nat.le_refl _

theorem forward_eat_bind {α : Type} {next : Bool → StateM Position α} (expected : Char)
    (hnext : ∀ eaten, Forward (next eaten)) : Forward (eat source expected >>= next) := by
  intro p
  change p.offset ≤ (next (eat source expected p).1 (eat source expected p).2).2.offset
  refine Nat.le_trans ?_ (hnext _ _)
  unfold eat
  split
  · exact offset_le_advance source p
  · exact Nat.le_refl _

theorem forward_ite {α : Type} {c : Prop} [Decidable c] {yes no : StateM Position α}
    (hyes : Forward yes) (hno : Forward no) : Forward (if c then yes else no) := by
  split
  · exact hyes
  · exact hno

theorem forward_symbol? (first : UInt8) : Forward (symbol? source first) := by
  unfold symbol?
  split
  all_goals
    repeat' first
      | exact forward_pure _
      | apply forward_ite
      | refine forward_eat_bind source _ fun _ => ?_

theorem offset_le_scanNumber {first : UInt8} {start p q : Position} {token : Token}
    (h : scanNumber source first start p = .ok (token, q)) : p.offset ≤ q.offset := by
  unfold scanNumber at h
  split at h
  next radix form _ =>
    dsimp only at h
    split at h
    · cases h
    · cases h
      exact Nat.le_trans (offset_le_advance source p) (offset_le_skipWhile source _ _)
  next =>
    cases h
    refine Nat.le_trans (offset_le_skipDigits source p) ?_
    exact Nat.le_trans (offset_le_skipFraction source _) (offset_le_skipExponent source _)

theorem offset_le_scanFirst {b : UInt8} {start q : Position} {token : Token}
    (h : scanFirst source b start = .ok (token, q)) :
    (advance source start).offset ≤ q.offset := by
  unfold scanFirst at h
  dsimp only at h
  split at h
  · cases h
    exact offset_le_takeString source _ _ _
  split at h
  · exact offset_le_scanNumber source h
  split at h
  · cases h
    exact offset_le_skipWord source _
  split at h
  · split at h
    · cases h
      exact Nat.le_trans (offset_le_skip source _ _) (offset_le_skipWord source _)
    · cases h
  · split at h
    next mark stop hsymbol =>
      cases h
      have hforward := forward_symbol? source b (advance source start)
      rwa [hsymbol] at hforward
    next => cases h

theorem left_scanToken_lt {p q : Position} {token : Token}
    (h : scanToken source p = .ok (token, q)) (hkind : token.kind ≠ .endOfInput) :
    left source q < left source p := by
  unfold scanToken at h
  dsimp only at h
  split at h
  next =>
    cases h
    exact absurd rfl hkind
  next b hb =>
    have hgap := offset_le_skipGap source p
    have hsize := lt_size_of_peek source hb
    have hq := offset_le_scanFirst source h
    rw [offset_advance source hb] at hq
    unfold left
    omega

end Tokens

section Loop

def scanTokens (p : Position) : Except Fault (List Token) :=
  match _h : scanToken source p with
  | .error fault => .error fault
  | .ok (token, q) =>
    if _hend : token.kind = .endOfInput then .ok [token]
    else
      match scanTokens q with
      | .error fault => .error fault
      | .ok tokens => .ok (token :: tokens)
termination_by left source p
decreasing_by exact left_scanToken_lt source _h _hend

end Loop

end Scanner

namespace Token

def scan (text : String) : Except Fault (List Token) :=
  Scanner.scanTokens text.toByteArray Position.first

def scanSource (source : Source) : Except SyntaxError (List Token) :=
  match scan source.text with
  | .ok tokens => .ok tokens
  | .error fault => .error (fault.report source)

end Token

end ScriptEngine
