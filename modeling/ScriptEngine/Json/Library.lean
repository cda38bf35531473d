/-!
# Values as JSON text

What a program sees of a library that writes values as JSON text and reads them back. There are
values of a few types, and structs with fields of such types. A struct has a default for each field,
which counts where a text leaves the field out.
-/

namespace ScriptEngine.Json

inductive FieldType where
  | text
  | flag
  | word
  | option (type : FieldType)

abbrev FieldType.Value : FieldType → Type
  | .text => String
  | .flag => Bool
  | .word => UInt64
  | .option type => Option type.Value

structure Struct (ι : Type) where
  fields : List ι
  name : ι → String
  type : ι → FieldType
  default : (i : ι) → (type i).Value
  mem_fields : ∀ i, i ∈ fields
  distinct : (fields.map name).Nodup

namespace Struct

variable {ι : Type}

def Record (s : Struct ι) : Type :=
  (i : ι) → (s.type i).Value

def Record.set [DecidableEq ι] {s : Struct ι} (r : s.Record) (i : ι) (x : (s.type i).Value) :
    s.Record :=
  fun j => if h : i = j then h ▸ x else r j

end Struct

structure Library where
  write : (type : FieldType) → type.Value → Option String
  read : (type : FieldType) → String → Option type.Value
  writeStruct : {ι : Type} → [DecidableEq ι] → (s : Struct ι) → s.Record → Option String
  readStruct : {ι : Type} → [DecidableEq ι] → (s : Struct ι) → String → Option s.Record

end ScriptEngine.Json
