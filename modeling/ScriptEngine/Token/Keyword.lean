/-!
# Reserved words

The reserved words are listed, looked up and spelled in tables of their own, which agree: a word is
listed exactly when it is looked up as a keyword, and that keyword is spelled like the word.
-/

namespace ScriptEngine

inductive Keyword where
  | var | let_ | const | function
  | if_ | else_ | while_ | for_ | return_ | switch | case | default_ | break_
  | continue_ | throw_ | try_ | catch_ | finally_ | new
  | true_ | false_ | null | this | typeof
deriving DecidableEq, Inhabited

namespace Keyword

def reserved : List String :=
  ["var", "let", "const", "function",
   "if", "else", "while", "for", "return", "switch", "case", "default", "break",
   "continue", "throw", "try", "catch", "finally", "new",
   "true", "false", "null", "this", "typeof"]

def ofText? : String → Option Keyword
  | "var" => some .var
  | "let" => some .let_
  | "const" => some .const
  | "function" => some .function
  | "if" => some .if_
  | "else" => some .else_
  | "while" => some .while_
  | "for" => some .for_
  | "return" => some .return_
  | "switch" => some .switch
  | "case" => some .case
  | "default" => some .default_
  | "break" => some .break_
  | "continue" => some .continue_
  | "throw" => some .throw_
  | "try" => some .try_
  | "catch" => some .catch_
  | "finally" => some .finally_
  | "new" => some .new
  | "true" => some .true_
  | "false" => some .false_
  | "null" => some .null
  | "this" => some .this
  | "typeof" => some .typeof
  | _ => none

def text : Keyword → String
  | .var => "var"
  | .let_ => "let"
  | .const => "const"
  | .function => "function"
  | .if_ => "if"
  | .else_ => "else"
  | .while_ => "while"
  | .for_ => "for"
  | .return_ => "return"
  | .switch => "switch"
  | .case => "case"
  | .default_ => "default"
  | .break_ => "break"
  | .continue_ => "continue"
  | .throw_ => "throw"
  | .try_ => "try"
  | .catch_ => "catch"
  | .finally_ => "finally"
  | .new => "new"
  | .true_ => "true"
  | .false_ => "false"
  | .null => "null"
  | .this => "this"
  | .typeof => "typeof"

theorem text_of_ofText? {word : String} {k : Keyword} (h : ofText? word = some k) :
    k.text = word := by
  unfold ofText? at h
  split at h <;> cases h <;> rfl

theorem ofText?_text (k : Keyword) : ofText? k.text = some k := by
  cases k <;> rfl

theorem text_mem_reserved (k : Keyword) : k.text ∈ reserved := by
  cases k <;> decide

theorem isSome_ofText?_of_mem {word : String} (h : word ∈ reserved) : (ofText? word).isSome := by
  have hall : ∀ word ∈ reserved, (ofText? word).isSome := by decide
  exact hall word h

theorem mem_reserved_iff {word : String} : word ∈ reserved ↔ ∃ k, ofText? word = some k := by
  constructor
  · intro h
    exact Option.isSome_iff_exists.1 (isSome_ofText?_of_mem h)
  · rintro ⟨k, hk⟩
    rw [← text_of_ofText? hk]
    exact text_mem_reserved k

theorem ofText?_eq_none_iff {word : String} : ofText? word = none ↔ word ∉ reserved := by
  rw [mem_reserved_iff, not_exists, Option.eq_none_iff_forall_ne_some]

end Keyword

end ScriptEngine
