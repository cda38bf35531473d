import ScriptEngine.Json.Library

/-!
# Engine configuration

Three settings, each with a default. A library writes them as JSON and reads them back; a text may
leave any of them out.
-/

namespace ScriptEngine

structure Config where
  /-- The name of sources in diagnostics. -/
  sourceName : String
  /-- Whether the built-in globals are bound. -/
  prelude : Bool
  /-- The greatest number of active calls; no limit when absent. -/
  maxCallDepth : Option UInt64
deriving DecidableEq

namespace Config

inductive Setting where
  | sourceName
  | prelude
  | maxCallDepth
deriving DecidableEq

namespace Setting

def all : List Setting :=
  [.sourceName, .prelude, .maxCallDepth]

def key : Setting → String
  | .sourceName => "source_name"
  | .prelude => "prelude"
  | .maxCallDepth => "max_call_depth"

def type : Setting → Json.FieldType
  | .sourceName => .text
  | .prelude => .flag
  | .maxCallDepth => .option .word

end Setting

def standard : Config :=
  ⟨"<script>", true, none⟩

instance : Inhabited Config := ⟨standard⟩

def get (c : Config) : (s : Setting) → s.type.Value
  | .sourceName => c.sourceName
  | .prelude => c.prelude
  | .maxCallDepth => c.maxCallDepth

def struct : Json.Struct Setting where
  fields := Setting.all
  name := Setting.key
  type := Setting.type
  default := standard.get
  mem_fields s := by cases s <;> decide
  distinct := by decide

def ofRecord (r : struct.Record) : Config :=
  ⟨r .sourceName, r .prelude, r .maxCallDepth⟩

variable (library : Json.Library)

def ofJson? (text : String) : Option Config :=
  (library.readStruct struct text).map ofRecord

/-- The text of a configuration; empty when the library fails. -/
def toJson (c : Config) : String :=
  (library.writeStruct struct c.get).getD ""

end Config

end ScriptEngine
