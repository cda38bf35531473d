import ScriptEngine.Proofs.Evaluation.Invariant
import ScriptEngine.Proofs.Evaluation.ScopeStore
import ScriptEngine.Proofs.Heap.Arrays
import ScriptEngine.Proofs.Heap.Prototypes

/-!
# References to objects

Whatever refers to an object refers to one that is there: the elements and properties of objects,
the bindings and receivers of scopes, and the values that a run holds. The prototype of a new object
is such a value, so it is an older object.
-/

namespace ScriptEngine

open Eval

def Value.Within (n : Nat) : Value → Prop
  | .object id => id < n
  | _ => True

theorem Value.Within.mono {n k : Nat} {v : Value} (h : v.Within n) (hn : n ≤ k) : v.Within k := by
  cases v with
  | object id => exact Nat.lt_of_lt_of_le h hn
  | undefined | null | bool | number | string => trivial

theorem Value.within_of_primitive {n : Nat} {v : Value} (hv : v.isObject = false) : v.Within n := by
  cases v with
  | object id => cases hv
  | undefined | null | bool | number | string => trivial

namespace Object

structure Within (n : Nat) (o : Object) : Prop where
  elements : ∀ items : Array Value, o.kind = .array items → ∀ v ∈ items, v.Within n
  properties : ∀ (key : String) (v : Value), o.properties[key]? = some v → v.Within n

theorem mem_resize {items : Array Value} {n : Nat} {v : Value} (hv : v ∈ resize items n) :
    v ∈ items ∨ v = .undefined := by
  obtain ⟨j, hj⟩ := Array.mem_iff_getElem?.mp hv
  have hn : j < n := by
    rw [← size_resize items n]
    exact (Array.getElem?_eq_some_iff.mp hj).1
  rcases Nat.lt_or_ge j items.size with hlt | hge
  · rw [getElem?_resize_of_lt hn hlt] at hj
    exact .inl (Array.mem_of_getElem? hj)
  · rw [getElem?_resize_of_le hn hge] at hj
    exact .inr (Option.some.inj hj).symm

theorem mem_place {items : Array Value} {i : Nat} {v x : Value} (hx : x ∈ place items i v) :
    x ∈ items ∨ x = .undefined ∨ x = v := by
  unfold place at hx
  split at hx
  · rcases Array.mem_or_eq_of_mem_setIfInBounds hx with hx | hx
    · exact .inl hx
    · exact .inr (.inr hx)
  · rcases Array.mem_push.mp hx with hx | hx
    · exact (mem_resize hx).imp_right .inl
    · exact .inr (.inr hx)

namespace Within

variable {n : Nat} {o : Object}

theorem mono {k : Nat} (ho : o.Within n) (hn : n ≤ k) : o.Within k where
  elements items hitems v hv := (ho.elements items hitems v hv).mono hn
  properties key v hv := (ho.properties key v hv).mono hn

theorem bare {kind : Kind} (h : ∀ items : Array Value, kind = .array items →
    ∀ v ∈ items, v.Within n)
    (prototype : Option ObjectId) : (Object.bare kind prototype).Within n where
  elements := h
  properties key v hv := by
    simp only [Object.bare, Std.TreeMap.getElem?_emptyc] at hv
    cases hv

theorem define (ho : o.Within n) (key : String) {v : Value} (hv : v.Within n) :
    (o.define key v).Within n where
  elements := ho.elements
  properties key' v' hv' := by
    simp only [Object.define, Std.TreeMap.getElem?_insert] at hv'
    split at hv'
    · cases hv'
      exact hv
    · exact ho.properties key' v' hv'

theorem array {items : Array Value} {prototype : Option ObjectId} {properties : Properties}
    (ho : Within n ⟨.array items, prototype, properties⟩) {items' : Array Value}
    (hitems : ∀ v ∈ items', v ∈ items ∨ v.Within n) :
    Within n ⟨.array items', prototype, properties⟩ where
  elements := by
    rintro _ ⟨⟩ v hv
    exact (hitems v hv).elim (ho.elements items rfl v) id
  properties := ho.properties

theorem write (ho : o.Within n) (slot : Slot) (key : String) {v : Value} (hv : v.Within n) :
    (o.write slot key v).Within n := by
  obtain ⟨kind, prototype, properties⟩ := o
  cases slot with
  | property => exact ho.define key hv
  | length k =>
    cases kind with
    | array items =>
      refine ho.array fun x hx => (mem_resize hx).imp_right ?_
      rintro rfl
      trivial
    | plain | closure | native | error => exact ho.define key hv
  | element i =>
    cases kind with
    | array items =>
      rw [write_element]
      refine ho.array fun x hx => (mem_place hx).imp_right ?_
      rintro (rfl | rfl)
      · trivial
      · exact hv
    | plain | closure | native | error => exact ho.define key hv

theorem append (ho : o.Within n) {vs : List Value} (hvs : ∀ v ∈ vs, v.Within n) :
    (o.append vs).Within n := by
  obtain ⟨kind, prototype, properties⟩ := o
  cases kind with
  | array items =>
    refine ho.array fun x hx => ?_
    exact (Array.mem_append.mp hx).imp_right fun hx => hvs x (List.mem_toArray.mp hx)
  | plain | closure | native | error => exact ho

theorem dropLast (ho : o.Within n) : o.dropLast.Within n := by
  obtain ⟨kind, prototype, properties⟩ := o
  cases kind with
  | array items =>
    refine ho.array fun x hx => .inl ?_
    obtain ⟨j, hj⟩ := Array.mem_iff_getElem?.mp hx
    rw [Array.getElem?_pop] at hj
    split at hj
    · exact Array.mem_of_getElem? hj
    · cases hj
  | plain | closure | native | error => exact ho

theorem getOwn? (ho : o.Within n) {key : String} {v : Value} (hv : o.getOwn? key = some v) :
    v.Within n := by
  obtain ⟨kind, prototype, properties⟩ := o
  cases kind with
  | array items =>
    simp only [Object.getOwn?] at hv
    split at hv
    · cases hv
      trivial
    · split at hv
      · exact ho.elements items rfl v (Array.mem_of_getElem? hv)
      · exact ho.properties key v hv
  | plain | closure | native | error => exact ho.properties key v hv

end Within

def KeepsPrototype (change : Object → Object) : Prop :=
  ∀ o, (change o).prototype = o.prototype

theorem prototype_define (o : Object) (key : String) (v : Value) :
    (o.define key v).prototype = o.prototype :=
  rfl

theorem prototype_write (o : Object) (slot : Slot) (key : String) (v : Value) :
    (o.write slot key v).prototype = o.prototype := by
  obtain ⟨kind, prototype, properties⟩ := o
  cases slot with
  | property => rfl
  | length n => cases kind <;> rfl
  | element i =>
    cases kind with
    | array items => rw [write_element]
    | plain | closure | native | error => rfl

theorem prototype_append (o : Object) (vs : List Value) :
    (o.append vs).prototype = o.prototype := by
  obtain ⟨kind, prototype, properties⟩ := o
  cases kind <;> rfl

theorem prototype_dropLast (o : Object) : o.dropLast.prototype = o.prototype := by
  obtain ⟨kind, prototype, properties⟩ := o
  cases kind <;> rfl

end Object

theorem Tandem.Edit.keepsPrototype {S : Tandem} {w : S.World} {h : Heap} {id : ObjectId}
    {change : Object → Object} (hchange : S.Edit w h id change) : Object.KeepsPrototype change := by
  intro o
  cases hchange with
  | define => exact o.prototype_define _ _
  | write => exact o.prototype_write _ _ _
  | append => exact o.prototype_append _
  | dropLast => exact o.prototype_dropLast

namespace Heap

variable {h : Heap}

theorem getWithin_within {k : Nat} (hh : ∀ id, (h.object id).Within k) (key : String) (n : Nat)
    (id : ObjectId) : (h.getWithin key n id).Within k := by
  induction n generalizing id with
  | zero => trivial
  | succ n ih =>
    simp only [getWithin]
    split
    next v hv => exact (hh id).getOwn? hv
    next =>
      split
      · trivial
      · split
        · exact ih _
        · trivial

theorem prototype_modify {change : Object → Object} (hchange : Object.KeepsPrototype change)
    (id i : ObjectId) : (object (h.modify id change) i).prototype = (h.object i).prototype := by
  rcases h.object_modify id change i with hsame | hnew
  · rw [hsame]
  · rw [hnew, hchange]

theorem Ordered.modify (hh : h.Ordered) {change : Object → Object}
    (hchange : Object.KeepsPrototype change) (id : ObjectId) : Ordered (h.modify id change) := by
  intro i p hp
  rw [prototype_modify hchange] at hp
  exact hh i p hp

theorem Ordered.alloc (hh : h.Ordered) {o : Object} (ho : ∀ p, o.prototype = some p → p < h.size) :
    (h.alloc o).Ordered := by
  intro i p hp
  rw [object_alloc] at hp
  split at hp
  next hi => exact hi ▸ ho p hp
  next => exact hh i p hp

theorem size_alloc (h : Heap) (o : Object) : (h.alloc o).size = h.size + 1 :=
  Array.size_push ..

end Heap

/-- A machine without references to objects that are not there, in which every prototype is an older
object. -/
structure Machine.Linked (m : Machine) : Prop where
  protos : Proto.all.length ≤ m.heap.size
  ordered : m.heap.Ordered
  objects : ∀ id, (m.heap.object id).Within m.heap.size
  bindings : ∀ i name b, m.scopes.getLocal? i name = some b → b.value.Within m.heap.size
  receivers : ∀ i v, (m.scopes.scope i).receiver = some v → v.Within m.heap.size

namespace Machine.Linked

variable {m : Machine} (hm : m.Linked)

include hm

theorem proto (p : Proto) : p.id < m.heap.size := by
  have hp : p.id < Proto.all.length := by cases p <;> decide
  exact Nat.lt_of_lt_of_le hp hm.protos

theorem rest (current : ScopeId) (frames : List Frame) (joining : List ObjectId) :
    Linked { m with current := current, frames := frames, joining := joining } :=
  ⟨hm.protos, hm.ordered, hm.objects, hm.bindings, hm.receivers⟩

theorem alloc {o : Object} (hp : ∀ p, o.prototype = some p → p < m.heap.size)
    (ho : o.Within (m.heap.size + 1)) : Linked { m with heap := m.heap.alloc o } := by
  have hsize := m.heap.size_alloc o
  have hle : m.heap.size ≤ (m.heap.alloc o).size := by rw [hsize]; exact Nat.le_succ _
  refine ⟨Nat.le_trans hm.protos hle, hm.ordered.alloc hp, fun id => ?_, ?_, ?_⟩
  · show ((m.heap.alloc o).object id).Within (m.heap.alloc o).size
    rw [Heap.object_alloc]
    split
    · rwa [hsize]
    · exact (hm.objects id).mono hle
  · exact fun i name b hb => (hm.bindings i name b hb).mono hle
  · exact fun i v hv => (hm.receivers i v hv).mono hle

theorem modify {change : Object → Object} (hkeeps : Object.KeepsPrototype change) {id : ObjectId}
    (hchange : (change (m.heap.object id)).Within m.heap.size) :
    Linked { m with heap := m.heap.modify id change } := by
  have hsize : (m.heap.modify id change).size = m.heap.size := Array.size_modify
  refine ⟨?_, hm.ordered.modify hkeeps id, fun i => ?_, ?_, ?_⟩
  · rw [hsize]
    exact hm.protos
  · show (Heap.object (m.heap.modify id change) i).Within (m.heap.modify id change).size
    rw [hsize, Heap.object_modify_eq]
    split
    next hi =>
      rw [hi.1]
      exact hchange
    next => exact hm.objects i
  · rw [hsize]
    exact hm.bindings
  · rw [hsize]
    exact hm.receivers

theorem put (i : ScopeId) (name : String) {b : Binding} (hb : b.value.Within m.heap.size) :
    Linked { m with scopes := m.scopes.put i name b } where
  protos := hm.protos
  ordered := hm.ordered
  objects := hm.objects
  bindings j n c hc := by
    rw [ScopeTree.getLocal?_put] at hc
    split at hc
    · cases hc
      exact hb
    · exact hm.bindings j n c hc
  receivers j v hv := by
    rw [ScopeTree.receiver_put] at hv
    exact hm.receivers j v hv

theorem add (parent : ScopeId) (holdsVars : Bool) {receiver : Option Value}
    (hreceiver : ∀ v ∈ receiver, v.Within m.heap.size) :
    Linked { m with scopes := m.scopes.add ⟨∅, some parent, holdsVars, receiver⟩ } where
  protos := hm.protos
  ordered := hm.ordered
  objects := hm.objects
  bindings i name b hb := by
    simp only [ScopeTree.getLocal?, ScopeTree.scope_add] at hb
    split at hb
    · simp only [Std.TreeMap.getElem?_emptyc] at hb
      cases hb
    · exact hm.bindings i name b hb
  receivers i v hv := by
    simp only [ScopeTree.scope_add] at hv
    split at hv
    · exact hreceiver v hv
    · exact hm.receivers i v hv

end Machine.Linked

namespace Invariant

def references : Invariant where
  World := Nat
  le := (· ≤ ·)
  holds w m := w = m.heap.size ∧ m.Linked
  sound w v := v.Within w
  scope _ _ := True
  plain _ _ := True
  admits _ := True

theorem within_of_fresh {m : Machine} (hm : m.Linked) {o o' : Object}
    (ho : references.tandem.Fresh m.heap.size o o') :
    (∀ p, o.prototype = some p → p < m.heap.size) ∧ o.Within m.heap.size := by
  cases ho with
  | plain hp =>
    refine ⟨?_, .bare (by rintro _ ⟨⟩) _⟩
    rintro _ ⟨⟩
    exact hp
  | array _ hitems =>
    refine ⟨?_, .bare ?_ _⟩
    · rintro _ ⟨⟩
      exact hm.proto .array
    · rintro _ ⟨⟩
      exact hitems
  | error name message ho =>
    subst ho
    have hname : (Value.string name).Within m.heap.size := trivial
    have hmessage : (Value.string message).Within m.heap.size := trivial
    refine ⟨?_, .define (.define (.bare (by rintro _ ⟨⟩) _) _ hname) _ hmessage⟩
    rintro _ ⟨⟩
    exact hm.proto .error
  | closure _ _ hp =>
    refine ⟨?_, .define (.bare (by rintro _ ⟨⟩) _) _ hp⟩
    rintro _ ⟨⟩
    exact hm.proto .function

theorem references_lawful : references.Lawful where
  refl := Nat.le_refl
  trans := Nat.le_trans
  sound_mono h hv := hv.mono h
  scope_mono _ _ := trivial
  plain_mono _ _ := trivial
  primitive hv := Value.within_of_primitive hv
  admits_of_le _ _ := trivial
  admits_max := trivial
  current _ := trivial
  proto := by
    rintro _ m ⟨rfl, hm⟩ p
    exact hm.proto p
  get := by
    rintro _ m ⟨rfl, hm⟩ id key
    exact Heap.getWithin_within hm.objects key _ id
  elements := by
    rintro _ m ⟨rfl, hm⟩ id items hitems
    exact ⟨trivial, (hm.objects id).elements items (Object.elements?_eq_some_iff.mp hitems)⟩
  closure _ _ _ _ _ := ⟨fun _ _ => trivial, trivial⟩
  host _ _ _ _ _ _ := trivial
  bound := by
    rintro _ m ⟨rfl, hm⟩ i name b hb
    exact hm.bindings i name b hb
  nearest? _ _ _ _ _ _ := trivial
  receiver := by
    rintro _ m ⟨rfl, hm⟩ i
    unfold ScopeTree.receiver
    cases hv : (m.scopes.nearest? i (·.receiver.isSome)).bind
        fun holder => (m.scopes.scope holder).receiver with
    | none => trivial
    | some v =>
      obtain ⟨holder, -, hholder⟩ := Option.bind_eq_some_iff.mp hv
      exact hm.receivers holder v hholder
  enter hm _ _ := ⟨hm.1, hm.2.rest _ _ _⟩
  calls hm _ _ := ⟨hm.1, hm.2.rest _ _ _⟩
  put := by
    rintro _ m ⟨rfl, hm⟩ i _ name b hb
    exact ⟨rfl, hm.put i name hb⟩
  add := by
    rintro _ m ⟨rfl, hm⟩ i _ holdsVars receiver hreceiver
    exact ⟨m.heap.size, Nat.le_refl _, trivial, rfl, hm.add i holdsVars hreceiver⟩
  fresh := by
    rintro _ m ⟨rfl, hm⟩ o ho
    obtain ⟨hprototype, hwithin⟩ := within_of_fresh hm ho
    refine ⟨m.heap.size + 1, Nat.le_succ _, Nat.lt_succ_self _, fun _ => trivial, ?_, ?_⟩
    · exact (m.heap.size_alloc o).symm
    · exact hm.alloc hprototype (hwithin.mono (Nat.le_succ _))
  edit := by
    rintro _ m ⟨rfl, hm⟩ id change hchange
    refine ⟨Array.size_modify.symm, hm.modify hchange.keepsPrototype ?_⟩
    cases hchange with
    | define _ hv => exact (hm.objects id).define _ hv
    | write _ hv => exact (hm.objects id).write _ _ hv
    | append _ _ hvs => exact (hm.objects id).append hvs
    | dropLast => exact (hm.objects id).dropLast

end Invariant

end ScriptEngine
