/-!
# Spans

A span is a half open range of byte offsets together with the line and the column, both counted from
one, of its first byte. Merging takes the position of whichever span starts first.
-/

namespace ScriptEngine.Text

structure Span where
  start : Nat
  stop : Nat
  line : Nat
  column : Nat
deriving DecidableEq, Inhabited

namespace Span

def point (offset line column : Nat) : Span :=
  ⟨offset, offset, line, column⟩

def merge (a b : Span) : Span :=
  if b.start < a.start then
    ⟨b.start, max a.stop b.stop, b.line, b.column⟩
  else
    ⟨a.start, max a.stop b.stop, a.line, a.column⟩

def length (s : Span) : Nat :=
  s.stop - s.start

def isEmpty (s : Span) : Bool :=
  s.start == s.stop

def render (s : Span) : String :=
  toString s.line ++ ":" ++ toString s.column

end Span

structure Position where
  offset : Nat
  line : Nat
  column : Nat
deriving DecidableEq, Inhabited

namespace Position

def first : Position :=
  ⟨0, 1, 1⟩

/-- The place after one byte. Bytes that continue a character begin no column. -/
def stepByte (p : Position) (b : UInt8) : Position :=
  if b = 0x0A then ⟨p.offset + 1, p.line + 1, 1⟩
  else if b &&& 0xC0 ≠ 0x80 then ⟨p.offset + 1, p.line, p.column + 1⟩
  else ⟨p.offset + 1, p.line, p.column⟩

def step (p : Position) (c : Char) : Position :=
  if c = '\n' then
    ⟨p.offset + c.utf8Size, p.line + 1, 1⟩
  else
    ⟨p.offset + c.utf8Size, p.line, p.column + 1⟩

def advance (p : Position) (cs : List Char) : Position :=
  cs.foldl step p

def spanTo (p q : Position) : Span :=
  ⟨p.offset, q.offset, p.line, p.column⟩

@[simp] theorem advance_nil (p : Position) : p.advance [] = p := rfl

@[simp] theorem advance_cons (p : Position) (c : Char) (cs : List Char) :
    p.advance (c :: cs) = (p.step c).advance cs := rfl

theorem advance_append (p : Position) (as bs : List Char) :
    p.advance (as ++ bs) = (p.advance as).advance bs := by
  simp [advance]

@[simp] theorem offset_stepByte (p : Position) (b : UInt8) :
    (p.stepByte b).offset = p.offset + 1 := by
  unfold stepByte
  split
  · rfl
  · split <;> rfl

theorem offset_step (p : Position) (c : Char) : (p.step c).offset = p.offset + c.utf8Size := by
  unfold step
  split <;> rfl

end Position

end ScriptEngine.Text
