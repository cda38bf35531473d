import ScriptEngine.Syntax.Tree
import ScriptEngine.Token.Stream

/-!
# Parsing steps

A step reads a token stream from an index and either fails or returns a result and the next index.
Loops are bounded by the number of tokens, since each round takes at least one; the bound is never
the reason to stop.
-/

namespace ScriptEngine

open Text SyntaxError

abbrev Parse (α : Type) := ReaderT Token.Stream (StateT Nat (Except Fault)) α

namespace Parse

def peek : Parse Token := do
  return (← read).get (← get)

def kind : Parse Token.Kind := do
  return (← peek).kind

/-- Takes the current token; the last one is never passed. -/
def advance : Parse Token := do
  let s ← read
  let i ← get
  if i < s.last then set (i + 1)
  return s.get i

def fail {α : Type} (cause : Cause) : Parse α := do
  throw (Fault.atToken cause (← peek))

def unexpected {α : Type} : Parse α := do
  fail (.unexpectedToken (← peek).describe)

def check (k : Token.Kind) : Parse Bool := do
  return (← kind) == k

def checkSymbol (s : Symbol) : Parse Bool :=
  check (.symbol s)

def eat (k : Token.Kind) : Parse Bool := do
  if ← check k then
    let _ ← advance
    return true
  else
    return false

def eatSymbol (s : Symbol) : Parse Bool :=
  eat (.symbol s)

def eatKeyword (k : Keyword) : Parse Bool :=
  eat (.keyword k)

def expect (s : Symbol) (what : Expectation) : Parse Unit := do
  if ← checkSymbol s then
    let _ ← advance
  else
    fail (.expected what)

def behind {α : Type} (k : Token.Kind) (item : Parse α) : Parse (Option α) := do
  if ← eat k then some <$> item else return none

def unlessAt {α : Type} (s : Symbol) (x : α) (item : Parse α) : Parse α := do
  if ← checkSymbol s then return x else item

def expectName (what : Expectation) : Parse Ident := do
  match ← kind with
  | .identifier name => return ⟨name, (← advance).span⟩
  | _ => fail (.expected what)

def expectPropertyName : Parse Ident := do
  let t ← peek
  match t.kind with
  | .identifier name => return ⟨name, (← advance).span⟩
  | .keyword _ => return ⟨t.text, (← advance).span⟩
  | _ => fail (.expected .propertyName)

/-- The span from a token to the last one taken; a point if none was. -/
def spanFrom (s : Token.Stream) (start stop : Nat) : Span :=
  let first := (s.get start).span
  if start < stop then first.merge (s.get (stop - 1)).span
  else Span.point first.start first.line first.column

def originFrom (start : Nat) : Parse Origin := do
  let s ← read
  let stop ← get
  return ⟨spanFrom s start stop, Token.Slice.clamp s.tokens start stop⟩

def rounds : Parse Nat := do
  return (← read).tokens.size + 1

def manyUntil {α : Type} (stops : Token.Kind → Bool) (item : Parse α) : Nat → Parse (List α)
  | 0 => fail .tooDeep
  | n + 1 => do
    if stops (← kind) then
      return []
    else
      let x ← item
      let xs ← manyUntil stops item n
      return x :: xs

def separated {α : Type} (item : Parse α) : Nat → Parse (List α)
  | 0 => fail .tooDeep
  | n + 1 => do
    let x ← item
    if ← eatSymbol .comma then
      let xs ← separated item n
      return x :: xs
    else
      return [x]

def separatedBefore {α : Type} (close : Symbol) (item : Parse α) : Parse (List α) :=
  unlessAt close [] do separated item (← rounds)

def separatedUntil {α : Type} (close : Symbol) (item : Parse α) : Nat → Parse (List α)
  | 0 => fail .tooDeep
  | n + 1 => do
    if ← checkSymbol close then
      return []
    else
      let x ← item
      if ← eatSymbol .comma then
        let xs ← separatedUntil close item n
        return x :: xs
      else
        return [x]

def chain {α : Type} (step : α → Parse (Option α)) : Nat → α → Parse α
  | 0, _ => fail .tooDeep
  | n + 1, x => do
    match ← step x with
    | some y => chain step n y
    | none => return x

end Parse

end ScriptEngine
