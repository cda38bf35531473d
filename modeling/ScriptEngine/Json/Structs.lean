import ScriptEngine.Json.Library
import ScriptEngine.Json.Reader

/-!
# Structs as documents

A library that goes through documents. A struct is written as an object with all its fields. It is
read from an object, where members with other names are ignored and each field comes at most once,
or from an array with its fields in their order.
-/

namespace ScriptEngine.Json

def writeValue : (type : FieldType) → type.Value → String
  | .text, s => quote s
  | .flag, b => if b then "true" else "false"
  | .word, n => toString n.toNat
  | .option _, none => "null"
  | .option type, some x => writeValue type x

def value? : (type : FieldType) → Json → Option type.Value
  | .text, j => j.text?
  | .flag, j => j.bool?
  | .word, j => j.word64?
  | .option _, .null => some none
  | .option type, j => (value? type j).map some

namespace Struct

variable {ι : Type} [DecidableEq ι] (s : Struct ι)

def Draft : Type :=
  (i : ι) → Option (s.type i).Value

variable {s}

namespace Draft

def empty : s.Draft :=
  fun _ => none

def set (d : s.Draft) (i : ι) (x : (s.type i).Value) : s.Draft :=
  fun j => if h : i = j then some (h ▸ x) else d j

def complete (d : s.Draft) : s.Record :=
  fun i => (d i).getD (s.default i)

def put? (d : s.Draft) (key : String) (j : Json) : Option s.Draft :=
  match s.fields.find? fun i => s.name i = key with
  | none => some d
  | some i => if (d i).isSome then none else (value? (s.type i) j).map (d.set i)

def putAll? (d : s.Draft) : List (List Char × Json) → Option s.Draft
  | [] => some d
  | (key, j) :: members =>
    match unescape? key with
    | none => none
    | some key =>
      match d.put? (String.ofList key) j with
      | none => none
      | some d => d.putAll? members

def putItems? (d : s.Draft) : List ι → List Json → Option s.Draft
  | _, [] => some d
  | [], _ :: _ => none
  | i :: fields, j :: items =>
    match value? (s.type i) j with
    | none => none
    | some x => (d.set i x).putItems? fields items

end Draft

variable (s)

def ofDocument? : Json → Option s.Record
  | .object members => (Draft.empty.putAll? members).map Draft.complete
  | .array items => (Draft.empty.putItems? s.fields items).map Draft.complete
  | _ => none

def memberText (r : s.Record) (i : ι) : String :=
  quote (s.name i) ++ ":" ++ writeValue (s.type i) (r i)

end Struct

def library : Library where
  write type x := some (writeValue type x)
  read type text := (read? text).bind (value? type)
  writeStruct s r := some ("\x7b" ++ ",".intercalate (s.fields.map (s.memberText r)) ++ "\x7d")
  readStruct s text := (read? text).bind s.ofDocument?

end ScriptEngine.Json
