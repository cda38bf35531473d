import ScriptEngine.Json.Quoted

/-!
# JSON documents

A document keeps its numbers and strings as they are written, so that a reader decides for itself
what a literal stands for. Reading accepts exactly the grammar of JSON.
-/

namespace ScriptEngine

inductive Json where
  | null
  | bool (value : Bool)
  | number (literal : List Char)
  | string (raw : List Char)
  | array (items : List Json)
  | object (members : List (List Char × Json))
deriving Inhabited

namespace Json

def isSpace (c : Char) : Bool :=
  c = ' ' || c = '\t' || c = '\n' || c = '\r'

def skipSpace (cs : List Char) : List Char :=
  cs.dropWhile isSpace

def isDigit (c : Char) : Bool :=
  '0' ≤ c && c ≤ '9'

def readRaw : List Char → Option (List Char × List Char)
  | [] => none
  | '"' :: cs => some ([], cs)
  | '\\' :: 'u' :: a :: b :: c :: d :: cs =>
    match hexUnit? a b c d, readRaw cs with
    | some _, some (raw, rest) => some ('\\' :: 'u' :: a :: b :: c :: d :: raw, rest)
    | _, _ => none
  | '\\' :: c :: cs =>
    match shortEscape? c, readRaw cs with
    | some _, some (raw, rest) => some ('\\' :: c :: raw, rest)
    | _, _ => none
  | c :: cs =>
    if c = '\\' ∨ c.toNat < 32 then none
    else
      match readRaw cs with
      | some (raw, rest) => some (c :: raw, rest)
      | none => none

def readWhole : List Char → Option (List Char × List Char)
  | '0' :: cs => some (['0'], cs)
  | cs =>
    let ds := cs.takeWhile isDigit
    if ds.isEmpty then none else some (ds, cs.drop ds.length)

def readFraction : List Char → Option (List Char × List Char)
  | '.' :: cs =>
    let ds := cs.takeWhile isDigit
    if ds.isEmpty then none else some ('.' :: ds, cs.drop ds.length)
  | cs => some ([], cs)

def readSign : List Char → List Char × List Char
  | '+' :: cs => (['+'], cs)
  | '-' :: cs => (['-'], cs)
  | cs => ([], cs)

def readExponent : List Char → Option (List Char × List Char)
  | e :: cs =>
    if e = 'e' ∨ e = 'E' then
      let (sign, rest) := readSign cs
      let ds := rest.takeWhile isDigit
      if ds.isEmpty then none else some (e :: sign ++ ds, rest.drop ds.length)
    else some ([], e :: cs)
  | [] => some ([], [])

def readMinus : List Char → List Char × List Char
  | '-' :: cs => (['-'], cs)
  | cs => ([], cs)

def readNumber (cs : List Char) : Option (List Char × List Char) := do
  let (minus, rest) := readMinus cs
  let (whole, rest) ← readWhole rest
  let (fraction, rest) ← readFraction rest
  let (exponent, rest) ← readExponent rest
  return (minus ++ whole ++ fraction ++ exponent, rest)

mutual

/-- One value. The bound counts steps and is never reached by `read?`. -/
def readValue : Nat → List Char → Option (Json × List Char)
  | 0, _ => none
  | n + 1, text =>
    match skipSpace text with
    | 'n' :: 'u' :: 'l' :: 'l' :: cs => some (.null, cs)
    | 't' :: 'r' :: 'u' :: 'e' :: cs => some (.bool true, cs)
    | 'f' :: 'a' :: 'l' :: 's' :: 'e' :: cs => some (.bool false, cs)
    | '"' :: cs => (readRaw cs).map fun (raw, rest) => (.string raw, rest)
    | '[' :: cs =>
      match skipSpace cs with
      | ']' :: rest => some (.array [], rest)
      | _ => (readItems n cs).map fun (items, rest) => (.array items, rest)
    | '\x7b' :: cs =>
      match skipSpace cs with
      | '\x7d' :: rest => some (.object [], rest)
      | _ => (readMembers n cs).map fun (members, rest) => (.object members, rest)
    | cs => (readNumber cs).map fun (literal, rest) => (.number literal, rest)

def readItems : Nat → List Char → Option (List Json × List Char)
  | 0, _ => none
  | n + 1, text =>
    match readValue n text with
    | none => none
    | some (item, rest) =>
      match skipSpace rest with
      | ',' :: cs => (readItems n cs).map fun (items, rest) => (item :: items, rest)
      | ']' :: cs => some ([item], cs)
      | _ => none

def readMembers : Nat → List Char → Option (List (List Char × Json) × List Char)
  | 0, _ => none
  | n + 1, text =>
    match skipSpace text with
    | '"' :: cs =>
      match readRaw cs with
      | none => none
      | some (key, rest) =>
        match skipSpace rest with
        | ':' :: cs =>
          match readValue n cs with
          | none => none
          | some (value, rest) =>
            match skipSpace rest with
            | ',' :: cs =>
              (readMembers n cs).map fun (members, rest) => ((key, value) :: members, rest)
            | '\x7d' :: cs => some ([(key, value)], cs)
            | _ => none
        | _ => none
    | _ => none

end

def read? (text : String) : Option Json :=
  let cs := text.toList
  match readValue (2 * cs.length + 2) cs with
  | some (value, rest) => if (skipSpace rest).isEmpty then some value else none
  | none => none

def text? : Json → Option String
  | .string raw => (unescape? raw).map String.ofList
  | _ => none

def bool? : Json → Option Bool
  | .bool value => some value
  | _ => none

/-- A natural below `2 ^ 64`, written with digits alone. -/
def word64? : Json → Option UInt64
  | .number literal =>
    if literal.all isDigit then
      let n := literal.foldl (fun n c => n * 10 + (c.toNat - 48)) 0
      if n < UInt64.size then some n.toUInt64 else none
    else none
  | _ => none

end Json

end ScriptEngine
