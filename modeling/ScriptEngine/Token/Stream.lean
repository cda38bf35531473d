import ScriptEngine.Token.Basic

/-!
# Token streams

The tokens a parser reads: a list that is not empty because the end of input stands behind it. Any
list of tokens can be made into a stream; looking behind the last token gives the last token.
-/

namespace ScriptEngine

open Text

namespace Token

structure Stream where
  tokens : Array Token
  size_pos : 0 < tokens.size

namespace Stream

/-- Adds an end of input at a place unless the list has one as its last token. -/
def ofTokens (tokens : Array Token) (finish : Position) : Stream :=
  if h : 0 < tokens.size ∧ tokens.back?.any isEnd then
    ⟨tokens, h.1⟩
  else
    ⟨tokens.push (atEnd finish), by simp⟩

def last (s : Stream) : Nat :=
  s.tokens.size - 1

/-- The token at an index, the last one from there on. -/
def get (s : Stream) (i : Nat) : Token :=
  have bound : min i s.last < s.tokens.size := by
    have := s.size_pos
    simp only [last]
    omega
  s.tokens[min i s.last]

def kindAt (s : Stream) (i : Nat) : Kind :=
  (s.get i).kind

end Stream

end Token

end ScriptEngine
