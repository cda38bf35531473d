import ScriptEngine.Token.Basic

/-!
# Slices of tokens

A run of consecutive tokens of one program. Its text is spelled from the tokens, with one blank
where the source had a gap between two of them.
-/

namespace ScriptEngine

namespace Token

/-- The spellings of tokens, with a blank between two that do not touch. -/
def spell : List Token → String
  | [] => ""
  | [t] => t.text
  | t :: u :: rest =>
    t.text ++ (if t.span.stop < u.span.start then " " else "") ++ spell (u :: rest)

structure Slice where
  all : Array Token
  start : Nat
  stop : Nat
  start_le_stop : start ≤ stop
  stop_le_size : stop ≤ all.size

namespace Slice

def clamp (all : Array Token) (start stop : Nat) : Slice where
  all := all
  start := min start (min stop all.size)
  stop := min stop all.size
  start_le_stop := Nat.min_le_right ..
  stop_le_size := Nat.min_le_right ..

def empty : Slice :=
  clamp #[] 0 0

instance : Inhabited Slice := ⟨empty⟩

def tokens (s : Slice) : List Token :=
  (s.all.extract s.start s.stop).toList

def length (s : Slice) : Nat :=
  s.stop - s.start

def isEmpty (s : Slice) : Bool :=
  s.start == s.stop

def text (s : Slice) : String :=
  spell s.tokens

theorem length_tokens (s : Slice) : s.tokens.length = s.length := by
  have := s.stop_le_size
  simp only [tokens, length, Array.length_toList, Array.size_extract]
  omega

end Slice

end Token

end ScriptEngine
