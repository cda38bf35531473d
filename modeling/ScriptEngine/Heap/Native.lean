/-!
# Native functions

The functions that are not written in the language. They are a closed list, so that the heap stays a
plain piece of data; what each of them does is defined with the evaluator.
-/

namespace ScriptEngine

inductive ErrorClass where
  | error
  | typeError
  | referenceError
  | syntaxError
  | rangeError
deriving DecidableEq, Inhabited

namespace ErrorClass

def all : List ErrorClass :=
  [.error, .typeError, .referenceError, .syntaxError, .rangeError]

def name : ErrorClass → String
  | .error => "Error"
  | .typeError => "TypeError"
  | .referenceError => "ReferenceError"
  | .syntaxError => "SyntaxError"
  | .rangeError => "RangeError"

end ErrorClass

/-- Functions a host can bind, each an access to the machine that scripts do not have. -/
inductive HostFunction where
  | sum
  | fail
  | raise
  | internal
  | apply
  | self
  | args
  | stack
  | prim
  | str
  | key
  | loose
  | same
  | display
  | peek
  | getProperty
  | setProperty
  | keys
  | makeError
deriving DecidableEq, Inhabited

namespace HostFunction

def all : List HostFunction :=
  [.sum, .fail, .raise, .internal, .apply, .self, .args, .stack, .prim, .str, .key, .loose, .same,
   .display, .peek, .getProperty, .setProperty, .keys, .makeError]

def name : HostFunction → String
  | .sum => "sum"
  | .fail => "fail"
  | .raise => "raise"
  | .internal => "internal"
  | .apply => "apply"
  | .self => "self"
  | .args => "args"
  | .stack => "stack"
  | .prim => "prim"
  | .str => "str"
  | .key => "key"
  | .loose => "loose"
  | .same => "same"
  | .display => "show"
  | .peek => "peek"
  | .getProperty => "getp"
  | .setProperty => "setp"
  | .keys => "keys"
  | .makeError => "mkerr"

def ofName? (name : String) : Option HostFunction :=
  all.find? (·.name == name)

end HostFunction

inductive Native where
  | objectConstructor
  | arrayConstructor
  | stringConstructor
  | numberConstructor
  | booleanConstructor
  | errorConstructor (c : ErrorClass)
  | arrayIsArray
  | numberIsNaN
  | numberIsFinite
  | numberIsInteger
  | numberParseFloat
  | numberParseInt
  | hasOwnProperty
  | objectToString
  | identity
  | functionToString
  | arrayPush
  | arrayPop
  | arrayJoin
  | arrayToString
  | arrayIndexOf
  | arrayIncludes
  | arraySlice
  | arrayMap
  | arrayForEach
  | stringCharAt
  | stringIndexOf
  | stringSlice
  | stringToUpperCase
  | stringToLowerCase
  | primitiveToString
  | errorToString
  | host (f : HostFunction)
deriving DecidableEq, Inhabited

end ScriptEngine
