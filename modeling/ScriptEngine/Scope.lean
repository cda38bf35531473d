import Std.Data.TreeMap
import ScriptEngine.Heap.Object

/-!
# Scopes

Scopes form a tree: each has a parent that was created before it, except the root. A name means its
innermost binding along the parents. Scopes of functions and the root hold `var` bindings; a scope
of a function also holds the receiver of the call.
-/

namespace ScriptEngine

inductive ScopeError where
  | notDefined (name : String)
  | alreadyDeclared (name : String)
  | constAssignment
deriving DecidableEq, Inhabited

namespace ScopeError

def errorClass : ScopeError → ErrorClass
  | .notDefined _ => .referenceError
  | .alreadyDeclared _ => .syntaxError
  | .constAssignment => .typeError

def message : ScopeError → String
  | .notDefined name => name ++ " is not defined"
  | .alreadyDeclared name => "Identifier '" ++ name ++ "' has already been declared"
  | .constAssignment => "Assignment to constant variable."

end ScopeError

structure Binding where
  value : Value
  kind : BindingKind
deriving Inhabited

structure Scope where
  bindings : Std.TreeMap String Binding
  parent : Option ScopeId
  /-- Whether `var` declarations land here. -/
  holdsVars : Bool
  /-- The receiver, in the scope of a function. -/
  receiver : Option Value

namespace Scope

def root : Scope := ⟨∅, none, true, none⟩

def block (parent : ScopeId) : Scope := ⟨∅, some parent, false, none⟩

def function (parent : ScopeId) (receiver : Value) : Scope :=
  ⟨∅, some parent, true, some receiver⟩

instance : Inhabited Scope := ⟨root⟩

def has (s : Scope) (name : String) : Bool :=
  s.bindings.contains name

def bind (s : Scope) (name : String) (b : Binding) : Scope :=
  { s with bindings := s.bindings.insert name b }

def overwrite (s : Scope) (name : String) (value : Value) : Scope :=
  match s.bindings[name]? with
  | some b => s.bind name { b with value := value }
  | none => s

end Scope

abbrev ScopeTree := Array Scope

namespace ScopeTree

def fresh : ScopeTree := #[Scope.root]

def scope (t : ScopeTree) (id : ScopeId) : Scope :=
  t.getD id default

/-- Adds a scope; its number is the size of the tree before. -/
def add (t : ScopeTree) (s : Scope) : ScopeTree :=
  t.push s

def climb (t : ScopeTree) (p : Scope → Bool) : Nat → ScopeId → Option ScopeId
  | 0, _ => none
  | n + 1, id =>
    let s := t.scope id
    if p s then some id
    else
      match s.parent with
      | some parent => t.climb p n parent
      | none => none

def nearest? (t : ScopeTree) (id : ScopeId) (p : Scope → Bool) : Option ScopeId :=
  t.climb p (id + 1) id

def varScope (t : ScopeTree) (id : ScopeId) : ScopeId :=
  (t.nearest? id (·.holdsVars)).getD id

def rootOf (t : ScopeTree) (id : ScopeId) : ScopeId :=
  (t.nearest? id (·.parent.isNone)).getD id

def holder? (t : ScopeTree) (id : ScopeId) (name : String) : Option ScopeId :=
  t.nearest? id (·.has name)

def getLocal? (t : ScopeTree) (id : ScopeId) (name : String) : Option Binding :=
  (t.scope id).bindings[name]?

def lookup? (t : ScopeTree) (id : ScopeId) (name : String) : Option Value :=
  (t.holder? id name).bind fun holder => (t.getLocal? holder name).map Binding.value

def get (t : ScopeTree) (id : ScopeId) (name : String) : Except ScopeError Value :=
  match t.lookup? id name with
  | some v => .ok v
  | none => .error (.notDefined name)

def varScopeHas (t : ScopeTree) (id : ScopeId) (name : String) : Bool :=
  (t.scope (t.varScope id)).has name

def receiver (t : ScopeTree) (id : ScopeId) : Value :=
  ((t.nearest? id (·.receiver.isSome)).bind fun holder => (t.scope holder).receiver).getD .undefined

def names (t : ScopeTree) (id : ScopeId) : List String :=
  (t.scope id).bindings.keys

def put (t : ScopeTree) (id : ScopeId) (name : String) (b : Binding) : ScopeTree :=
  t.modify id (·.bind name b)

/-- A declaration is refused where the name is bound, unless both are `var`. -/
def refuses (t : ScopeTree) (id : ScopeId) (name : String) (kind : BindingKind) : Bool :=
  match t.getLocal? id name with
  | some b => !(b.kind == .var && kind == .var)
  | none => false

def declarationScope (t : ScopeTree) (id : ScopeId) : BindingKind → ScopeId
  | .var => t.varScope id
  | .let_ | .const => id

def setVar (t : ScopeTree) (id : ScopeId) (name : String) (value : Value) : ScopeTree :=
  t.put (t.varScope id) name ⟨value, .var⟩

/-- Replaces the value of a binding of a scope, whatever its kind. -/
def overwriteLocal (t : ScopeTree) (id : ScopeId) (name : String) (value : Value) : ScopeTree :=
  t.modify id (·.overwrite name value)

def declareLocal (t : ScopeTree) (id : ScopeId) (name : String) (value : Value)
    (kind : BindingKind) : Except ScopeError ScopeTree :=
  if t.refuses id name kind then .error (.alreadyDeclared name)
  else .ok (t.put id name ⟨value, kind⟩)

def declare (t : ScopeTree) (id : ScopeId) (name : String) (value : Value)
    (kind : BindingKind) : Except ScopeError ScopeTree :=
  t.declareLocal (t.declarationScope id kind) name value kind

/-- The scope and the kind of the binding that an assignment writes: the innermost binding of the
name, which must not be constant, or a new `var` of the root. -/
def assignee (t : ScopeTree) (id : ScopeId) (name : String) :
    Except ScopeError (ScopeId × BindingKind) :=
  match t.holder? id name with
  | none => .ok (t.varScope (t.rootOf id), .var)
  | some holder =>
    match t.getLocal? holder name with
    | none => .ok (holder, .var)
    | some b => if b.kind == .const then .error .constAssignment else .ok (holder, b.kind)

def assign (t : ScopeTree) (id : ScopeId) (name : String) (value : Value) :
    Except ScopeError ScopeTree :=
  match t.assignee id name with
  | .ok (holder, kind) => .ok (t.put holder name ⟨value, kind⟩)
  | .error e => .error e

end ScopeTree

end ScriptEngine
