import ScriptEngine.Machine

/-!
# The prelude

The machine a program starts on: the built-in prototypes with their methods, three constants, and
the global constructors if they are asked for.
-/

namespace ScriptEngine

namespace Machine

def bare (maxCallDepth : Option UInt64) : Machine where
  heap := (Proto.all.map fun p =>
    Object.bare .plain (if p = .object then none else some Proto.object.id)).toArray
  scopes := ScopeTree.fresh
  current := 0
  frames := []
  joining := []
  maxCallDepth := maxCallDepth

def define (m : Machine) (id : ObjectId) (key : String) (value : Value) : Machine :=
  { m with heap := m.heap.define id key value }

def addNative (m : Machine) (name : String) (f : Native) : Machine :=
  { m with heap := m.heap.alloc (.bare (.native name f) (some Proto.function.id)) }

def addMethod (m : Machine) (id : ObjectId) (name : String) (f : Native) : Machine :=
  (m.addNative name f).define id name (.object m.heap.size)

def addMethods (m : Machine) (id : ObjectId) (methods : List (String × Native)) : Machine :=
  methods.foldl (fun m (name, f) => m.addMethod id name f) m

def setGlobal (m : Machine) (name : String) (value : Value) : Machine :=
  { m with scopes := m.scopes.setVar 0 name value }

def addGlobal (m : Machine) (name : String) (f : Native) : Machine :=
  (m.addNative name f).setGlobal name (.object m.heap.size)

def addConstructor (m : Machine) (name : String) (f : Native) (proto : Proto)
    (methods : List (String × Native)) : Machine :=
  let id := m.heap.size
  ((m.addNative name f).define id "prototype" (.object proto.id)).addMethods id methods
    |>.setGlobal name (.object id)

def protoMethods : Proto → List (String × Native)
  | .object =>
    [("hasOwnProperty", .hasOwnProperty), ("toString", .objectToString), ("valueOf", .identity)]
  | .function => [("toString", .functionToString)]
  | .array =>
    [("push", .arrayPush), ("pop", .arrayPop), ("join", .arrayJoin), ("toString", .arrayToString),
     ("indexOf", .arrayIndexOf), ("includes", .arrayIncludes), ("slice", .arraySlice),
     ("map", .arrayMap), ("forEach", .arrayForEach)]
  | .string =>
    [("charAt", .stringCharAt), ("indexOf", .stringIndexOf), ("slice", .stringSlice),
     ("toUpperCase", .stringToUpperCase), ("toLowerCase", .stringToLowerCase),
     ("toString", .primitiveToString)]
  | .number => [("toString", .primitiveToString), ("valueOf", .identity)]
  | .boolean => [("toString", .primitiveToString), ("valueOf", .identity)]
  | .error => [("toString", .errorToString)]

def withBasics (m : Machine) : Machine :=
  let m := m.define Proto.error.id "name" (.string "Error")
  let m := m.define Proto.error.id "message" (.string "")
  let m := Proto.all.foldl (fun m p => m.addMethods p.id (protoMethods p)) m
  let m := m.setGlobal "undefined" .undefined
  let m := m.setGlobal "NaN" (.number Numeric.nan)
  m.setGlobal "Infinity" (.number Numeric.infinity)

def withConstructors (m : Machine) : Machine :=
  let m := m.addConstructor "Object" .objectConstructor .object []
  let m := m.addConstructor "Array" .arrayConstructor .array [("isArray", .arrayIsArray)]
  let m := m.addConstructor "String" .stringConstructor .string []
  let m := m.addConstructor "Number" .numberConstructor .number
    [("isNaN", .numberIsNaN), ("isFinite", .numberIsFinite), ("isInteger", .numberIsInteger),
     ("parseFloat", .numberParseFloat), ("parseInt", .numberParseInt)]
  let m := m.addConstructor "Boolean" .booleanConstructor .boolean []
  ErrorClass.all.foldl (fun m c => m.addConstructor c.name (.errorConstructor c) .error []) m

def start (prelude : Bool) (maxCallDepth : Option UInt64) : Machine :=
  let m := (bare maxCallDepth).withBasics
  if prelude then m.withConstructors else m

end Machine

end ScriptEngine
