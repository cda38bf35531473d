import ScriptEngine.Evaluation.Call

/-!
# Heaps that look alike

Programs cannot see the scope of a closure. Two heaps whose objects differ in no more than that give
the same answers to whatever the evaluator reads off them.
-/

namespace ScriptEngine

/-- Two objects are the same up to the scope of a closure. -/
inductive Object.Lookalike : Object → Object → Prop where
  | refl (o : Object) : Lookalike o o
  | closure (f : Function) (s s' : ScopeId) (prototype : Option ObjectId)
      (properties : Properties) :
      Lookalike ⟨.closure f s, prototype, properties⟩ ⟨.closure f s', prototype, properties⟩

namespace Object.Lookalike

variable {o o' : Object} (h : o.Lookalike o')

include h

theorem prototype : o'.prototype = o.prototype := by
  cases h <;> rfl

theorem elements? : o'.elements? = o.elements? := by
  cases h <;> rfl

theorem isArray : o'.isArray = o.isArray := by
  cases h <;> rfl

theorem getOwn? (key : String) : o'.getOwn? key = o.getOwn? key := by
  cases h <;> rfl

theorem hasOwn (key : String) : o'.hasOwn key = o.hasOwn key := by
  cases h <;> rfl

theorem keys : o'.keys = o.keys := by
  cases h <;> rfl

theorem slot? (key : String) (v : Value) : o'.slot? key v = o.slot? key v := by
  cases h <;> rfl

theorem last : o'.last = o.last := by
  cases h <;> rfl

theorem isCallable : o'.kind.isCallable = o.kind.isCallable := by
  cases h <;> rfl

theorem className : o'.kind.className = o.kind.className := by
  cases h <;> rfl

theorem functionName? : o'.kind.functionName? = o.kind.functionName? := by
  cases h <;> rfl

theorem change {change : Object → Object}
    (hchange : ∀ f s s' p ps,
      (change ⟨.closure f s, p, ps⟩).Lookalike (change ⟨.closure f s', p, ps⟩)) :
    (change o).Lookalike (change o') := by
  cases h with
  | refl => exact .refl _
  | closure => exact hchange _ _ _ _ _

end Object.Lookalike

def Heap.Lookalike (h h' : Heap) : Prop :=
  ∀ id, (h.object id).Lookalike (h'.object id)

namespace Heap.Lookalike

variable {h h' : Heap} (hh : h.Lookalike h')

include hh

theorem getWithin (key : String) (n : Nat) (id : ObjectId) :
    h'.getWithin key n id = h.getWithin key n id := by
  induction n generalizing id with
  | zero => rfl
  | succ n ih =>
    simp only [Heap.getWithin, (hh id).getOwn?, (hh id).isArray, (hh id).prototype, ih]

theorem get (id : ObjectId) (key : String) : h'.get id key = h.get id key :=
  hh.getWithin key (id + 1) id

theorem callable? (v : Value) : h'.callable? v = h.callable? v := by
  cases v with
  | object id => simp only [Heap.callable?, (hh id).isCallable]
  | undefined | null | bool | number | string => rfl

theorem typeOf (v : Value) : h'.typeOf v = h.typeOf v := by
  cases v with
  | object id => simp only [Heap.typeOf, (hh id).isCallable]
  | undefined | null | bool | number | string => rfl

theorem errorSummary (id : ObjectId) : h'.errorSummary id = h.errorSummary id := by
  simp only [Heap.errorSummary, textProperty, hh.get]

theorem displayWith (elements : Array Value → String) (v : Value) :
    h'.displayWith elements v = h.displayWith elements v := by
  cases v with
  | object id =>
    have hid := hh id
    simp only [Heap.displayWith, hh.errorSummary]
    generalize h.object id = o, h'.object id = o' at hid
    cases hid <;> rfl
  | undefined | null | bool | number | string => rfl

theorem displayWithin (n : Nat) (v : Value) : h'.displayWithin n v = h.displayWithin n v := by
  induction n generalizing v with
  | zero => exact hh.displayWith _ v
  | succ n ih =>
    have hsame : h'.displayWithin n = h.displayWithin n := funext ih
    simp only [Heap.displayWithin, hsame, hh.displayWith]

theorem display (v : Value) : h'.display v = h.display v :=
  hh.displayWithin 3 v

theorem propertyOf (v : Value) (key : String) :
    Eval.propertyOf h' v key = Eval.propertyOf h v key := by
  cases v <;> simp only [Eval.propertyOf, hh.get]

theorem functionName (id : ObjectId) : Eval.functionName h' id = Eval.functionName h id := by
  simp only [Eval.functionName, (hh id).functionName?]

theorem tagOf (v : Value) : Native.tagOf h' v = Native.tagOf h v := by
  cases v with
  | object id => exact (hh id).className
  | undefined | null | bool | number | string => rfl

theorem ownsKey (v : Value) (key : String) : Native.ownsKey h' v key = Native.ownsKey h v key := by
  cases v with
  | object id => exact (hh id).hasOwn key
  | undefined | null | bool | number | string => rfl

theorem functionText (v : Value) : Native.functionText h' v = Native.functionText h v := by
  cases v with
  | object id =>
    have hid := hh id
    simp only [Native.functionText, hh.display]
    generalize h.object id = o, h'.object id = o' at hid
    cases hid <;> rfl
  | undefined | null | bool | number | string => exact hh.display _

end Heap.Lookalike

structure Machine.Lookalike (m m' : Machine) : Prop where
  heap : m.heap.Lookalike m'.heap
  size : m'.heap.size = m.heap.size
  frames : m'.frames = m.frames
  joining : m'.joining = m.joining
  maxCallDepth : m'.maxCallDepth = m.maxCallDepth

theorem Machine.Lookalike.atCallLimit {m m' : Machine} (h : m.Lookalike m') :
    Eval.atCallLimit m' = Eval.atCallLimit m := by
  simp only [Eval.atCallLimit, h.maxCallDepth, h.frames]

theorem Machine.Lookalike.rescope {m m' : Machine} (h : m.Lookalike m') (t t' : ScopeTree)
    (i i' : ScopeId) :
    Lookalike { m with scopes := t, current := i } { m' with scopes := t', current := i' } :=
  ⟨h.heap, h.size, h.frames, h.joining, h.maxCallDepth⟩

end ScriptEngine
