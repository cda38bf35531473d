import ScriptEngine.Machine

/-!
# Snapshots

The objects that can be reached from a value, numbered breadth first in the order in which they are
met: the prototype of an object, then its elements, then its own properties. Built-in prototypes are
named and not expanded, and native functions show the names of their properties only.
-/

namespace ScriptEngine

namespace Snapshot

def maxObjects : Nat := 60

def maxItems : Nat := 100

inductive Ref where
  | undefined
  | null
  | bool (b : Bool)
  | number (x : Float)
  | string (s : String)
  | object (index : Option Nat)
  | proto (p : Proto)

def shownItems (o : Object) : List Value :=
  match o.kind with
  | .array items => (items.extract 0 maxItems).toList
  | _ => []

def shownProperties (o : Object) : List (String × Value) :=
  match o.kind with
  | .native .. => []
  | .array items => if maxItems < items.size then [] else o.properties.toList
  | _ => o.properties.toList

def references (o : Object) : List Value :=
  (o.prototype.map Value.object).toList ++ shownItems o ++ (shownProperties o).map (·.2)

def meet (met : Array ObjectId) (v : Value) : Array ObjectId :=
  match v with
  | .object id =>
    if (Proto.ofId? id).isSome || met.contains id || maxObjects ≤ met.size then met
    else met.push id
  | _ => met

def expand (h : Heap) : Nat → Nat → Array ObjectId → Array ObjectId
  | 0, _, met => met
  | n + 1, i, met =>
    match met[i]? with
    | none => met
    | some id => expand h n (i + 1) ((references (h.object id)).foldl meet met)

def reach (h : Heap) (v : Value) : Array ObjectId :=
  expand h maxObjects 0 (meet #[] v)

def ref (met : Array ObjectId) : Value → Ref
  | .undefined => .undefined
  | .null => .null
  | .bool b => .bool b
  | .number x => .number x
  | .string s => .string s
  | .object id =>
    match Proto.ofId? id with
    | some p => .proto p
    | none => .object (met.idxOf? id)

end Snapshot

end ScriptEngine
