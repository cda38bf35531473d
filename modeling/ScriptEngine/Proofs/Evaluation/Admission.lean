import ScriptEngine.Proofs.Evaluation.Contract
import ScriptEngine.Proofs.Evaluation.Prelude

/-!
# What a heap admits

A heap whose closures have functions of some kind and whose natives are built in. Runs make closures
of such functions only and make no natives, so it stays so.
-/

namespace ScriptEngine

namespace Object

def Kind.Admitted (P : Function → Prop) : Kind → Prop
  | .closure f _ => P f
  | .native _ f => f.isBuiltin
  | .plain | .array _ | .error => True

/-- A kind is the same up to the elements of an array. -/
inductive Kind.Similar : Kind → Kind → Prop where
  | refl (k : Kind) : Similar k k
  | array (items items' : Array Value) : Similar (.array items) (.array items')

theorem Kind.Similar.symm {k k' : Kind} (h : k.Similar k') : k'.Similar k := by
  cases h with
  | refl => exact .refl k
  | array items items' => exact .array items' items

theorem Kind.Similar.closure {k k' : Kind} (h : k.Similar k') {f : Function} {home : ScopeId}
    (hkind : k' = .closure f home) : k = .closure f home := by
  cases h with
  | refl => exact hkind
  | array => cases hkind

theorem Kind.Similar.admitted {P : Function → Prop} {k k' : Kind} (h : k.Similar k')
    (hk : k.Admitted P) : k'.Admitted P := by
  cases h with
  | refl => exact hk
  | array => trivial

theorem Kind.Similar.isCallable {k k' : Kind} (h : k.Similar k') :
    k'.isCallable = k.isCallable := by
  cases h <;> rfl

theorem similar_define (o : Object) (key : String) (v : Value) :
    o.kind.Similar (o.define key v).kind :=
  .refl _

theorem similar_write (o : Object) (slot : Slot) (key : String) (v : Value) :
    o.kind.Similar (o.write slot key v).kind := by
  obtain ⟨kind, prototype, properties⟩ := o
  cases slot with
  | property => exact .refl _
  | length n =>
    cases kind with
    | array items => exact .array _ _
    | plain | closure | native | error => exact .refl _
  | element i =>
    cases kind with
    | array items =>
      unfold write
      dsimp only
      split <;> exact .array _ _
    | plain | closure | native | error => exact .refl _

theorem similar_append (o : Object) (vs : List Value) : o.kind.Similar (o.append vs).kind := by
  obtain ⟨kind, prototype, properties⟩ := o
  cases kind with
  | array items => exact .array _ _
  | plain | closure | native | error => exact .refl _

theorem similar_dropLast (o : Object) : o.kind.Similar o.dropLast.kind := by
  obtain ⟨kind, prototype, properties⟩ := o
  cases kind with
  | array items => exact .array _ _
  | plain | closure | native | error => exact .refl _

end Object

namespace Heap

theorem object_alloc (h : Heap) (o : Object) (id : ObjectId) :
    (h.alloc o).object id = if id = h.size then o else h.object id := by
  simp only [object, alloc, Array.getD_eq_getD_getElem?, Array.getElem?_push]
  split <;> rfl

theorem object_modify_eq (h : Heap) (id : ObjectId) (change : Object → Object) (i : ObjectId) :
    object (h.modify id change) i =
      if i = id ∧ id < h.size then change (h.object i) else h.object i := by
  simp only [object, Array.getD_eq_getD_getElem?, Array.getElem?_modify]
  by_cases hi : id = i
  · subst hi
    by_cases hlt : id < h.size
    · simp [hlt]
    · simp [hlt]
  · simp [hi, Ne.symm hi]

theorem object_modify (h : Heap) (id : ObjectId) (f : Object → Object) (i : ObjectId) :
    object (h.modify id f) i = h.object i ∨ object (h.modify id f) i = f (h.object i) := by
  simp only [object, Array.getD_eq_getD_getElem?, Array.getElem?_modify]
  split
  · cases h[i]? with
    | none => exact .inl rfl
    | some o => exact .inr rfl
  · exact .inl rfl

theorem similar_modify (h : Heap) {f : Object → Object}
    (hf : ∀ o : Object, o.kind.Similar (f o).kind) (id i : ObjectId) :
    (h.object i).kind.Similar (object (h.modify id f) i).kind := by
  rcases h.object_modify id f i with hsame | hnew
  · rw [hsame]
    exact .refl _
  · rw [hnew]
    exact hf _

end Heap

namespace Machine

def Admits (P : Function → Prop) (m : Machine) : Prop :=
  ∀ id, (m.heap.object id).kind.Admitted P

variable {P : Function → Prop} {m m' : Machine}

theorem Admits.alloc (hm : m.Admits P) {o : Object} (ho : o.kind.Admitted P) :
    Admits P { m with heap := m.heap.alloc o } := by
  intro id
  rw [Heap.object_alloc]
  split
  · exact ho
  · exact hm id

theorem Admits.modify (hm : m.Admits P) {f : Object → Object}
    (hf : ∀ o : Object, o.kind.Similar (f o).kind) (id : ObjectId) :
    Admits P { m with heap := m.heap.modify id f } :=
  fun i => (m.heap.similar_modify hf id i).admitted (hm i)

theorem Admits.change (hm : m.Admits P) (h : m.Change P m') : m'.Admits P := by
  cases h with
  | alloc o hf hn =>
    refine hm.alloc ?_
    cases hkind : o.kind with
    | closure f s => exact hf f s hkind
    | native n f => exact absurd hkind (hn n f)
    | plain | array | error => trivial
  | define id key v => exact hm.modify (fun o => o.similar_define key v) id
  | write id slot key v => exact hm.modify (fun o => o.similar_write slot key v) id
  | append id vs => exact hm.modify (fun o => o.similar_append vs) id
  | dropLast id => exact hm.modify (fun o => o.similar_dropLast) id
  | addScope | assign | declare | overwrite => exact hm

theorem start_admits (P : Function → Prop) (prelude : Bool) (maxCallDepth : Option UInt64) :
    (start prelude maxCallDepth).Admits P := by
  refine start_induction ?_ ?_ ?_ maxCallDepth ?_ prelude
  · exact fun m id key v hm => hm.modify (fun o => o.similar_define key v) id
  · exact fun m name f hf hm => hm.alloc hf
  · exact fun m name v hm => hm
  · intro id
    simp only [Machine.bare, Heap.object, Array.getD_eq_getD_getElem?, List.getElem?_toArray,
      List.getElem?_map]
    cases Proto.all[id]? <;> trivial

end Machine

end ScriptEngine
