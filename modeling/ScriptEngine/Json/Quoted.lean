/-!
# JSON strings

Quoting escapes quotes, backslashes and control characters and leaves all else alone. Unquoting
takes the characters between the quotes and undoes the escapes; a surrogate that is not one of a
pair has no character.
-/

namespace ScriptEngine.Json

def controlEscape (c : Char) : List Char :=
  ['\\', 'u', '0', '0', Nat.digitChar (c.toNat / 16), Nat.digitChar (c.toNat % 16)]

def escapeChar (c : Char) : List Char :=
  if c = '"' then ['\\', '"']
  else if c = '\\' then ['\\', '\\']
  else if c = '\n' then ['\\', 'n']
  else if c = '\r' then ['\\', 'r']
  else if c = '\t' then ['\\', 't']
  else if c.toNat = 8 then ['\\', 'b']
  else if c.toNat = 12 then ['\\', 'f']
  else if c.toNat < 32 then controlEscape c
  else [c]

def escape (cs : List Char) : List Char :=
  cs.flatMap escapeChar

def quote (s : String) : String :=
  String.ofList ('"' :: escape s.toList ++ ['"'])

def hexValue? (c : Char) : Option Nat :=
  if '0' ≤ c && c ≤ '9' then some (c.toNat - 48)
  else if 'a' ≤ c && c ≤ 'f' then some (c.toNat - 87)
  else if 'A' ≤ c && c ≤ 'F' then some (c.toNat - 55)
  else none

def hexUnit? (a b c d : Char) : Option Nat := do
  return (((← hexValue? a) * 16 + (← hexValue? b)) * 16 + (← hexValue? c)) * 16 + (← hexValue? d)

def shortEscape? (c : Char) : Option Char :=
  if c = '"' then some '"'
  else if c = '\\' then some '\\'
  else if c = '/' then some '/'
  else if c = 'b' then some (Char.ofNat 8)
  else if c = 'f' then some (Char.ofNat 12)
  else if c = 'n' then some '\n'
  else if c = 'r' then some '\r'
  else if c = 't' then some '\t'
  else none

def isLead (n : Nat) : Bool :=
  0xD800 ≤ n && n < 0xDC00

def isTrail (n : Nat) : Bool :=
  0xDC00 ≤ n && n < 0xE000

def unescape? : List Char → Option (List Char)
  | [] => some []
  | '\\' :: 'u' :: a :: b :: c :: d :: '\\' :: 'u' :: e :: f :: g :: h :: cs =>
    match hexUnit? a b c d, hexUnit? e f g h with
    | some u, some v =>
      if isLead u then
        if isTrail v then
          (unescape? cs).map (Char.ofNat (0x10000 + (u - 0xD800) * 0x400 + (v - 0xDC00)) :: ·)
        else none
      else if isTrail u then none
      else (unescape? ('\\' :: 'u' :: e :: f :: g :: h :: cs)).map (Char.ofNat u :: ·)
    | _, _ => none
  | '\\' :: 'u' :: a :: b :: c :: d :: cs =>
    match hexUnit? a b c d with
    | some u =>
      if isLead u || isTrail u then none else (unescape? cs).map (Char.ofNat u :: ·)
    | none => none
  | '\\' :: c :: cs =>
    match shortEscape? c with
    | some x => (unescape? cs).map (x :: ·)
    | none => none
  | c :: cs => if c = '\\' then none else (unescape? cs).map (c :: ·)

end ScriptEngine.Json
