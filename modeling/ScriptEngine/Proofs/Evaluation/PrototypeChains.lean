import ScriptEngine.Proofs.Evaluation.ArrayForm
import ScriptEngine.Proofs.Evaluation.References
import ScriptEngine.Proofs.Syntax.RoundTrip

/-!
# Prototype chains in a run

Programs choose the prototypes of the objects that they construct, but an object has to be there to
be chosen. So in a session every prototype is older than its object and all chains end; what a
look-up finds is on the chain, and a write is seen from the objects whose chain has the written one.
-/

namespace ScriptEngine

open Eval

namespace Machine

namespace Linked

variable {m : Machine} (hm : m.Linked)

include hm

theorem define (id : ObjectId) (key : String) {v : Value} (hv : v.Within m.heap.size) :
    (m.define id key v).Linked :=
  hm.modify (fun o => o.prototype_define key v) ((hm.objects id).define key hv)

theorem addNative (name : String) (f : Native) : (m.addNative name f).Linked := by
  refine hm.alloc ?_ (.bare (by rintro _ ⟨⟩) _)
  rintro _ ⟨⟩
  exact hm.proto .function

theorem setGlobal (name : String) {v : Value} (hv : v.Within m.heap.size) :
    (m.setGlobal name v).Linked :=
  hm.put _ name hv

theorem addGlobal (name : String) (f : Native) : (m.addGlobal name f).Linked := by
  refine (hm.addNative name f).setGlobal name ?_
  show m.heap.size < (m.heap.alloc _).size
  rw [Heap.size_alloc]
  exact Nat.lt_succ_self _

theorem addMethod (id : ObjectId) (name : String) (f : Native) :
    (m.addMethod id name f).Linked := by
  refine (hm.addNative name f).define id name ?_
  show m.heap.size < (m.heap.alloc _).size
  rw [Heap.size_alloc]
  exact Nat.lt_succ_self _

omit hm in
theorem size_addMethod (m : Machine) (id : ObjectId) (name : String) (f : Native) :
    (m.addMethod id name f).heap.size = m.heap.size + 1 := by
  show ((m.heap.alloc _).modify id _).size = _
  rw [Array.size_modify, Heap.size_alloc]

theorem addMethods (id : ObjectId) (methods : List (String × Native)) :
    (m.addMethods id methods).Linked ∧ m.heap.size ≤ (m.addMethods id methods).heap.size := by
  induction methods generalizing m with
  | nil => exact ⟨hm, Nat.le_refl _⟩
  | cons method methods ih =>
    obtain ⟨hlinked, hle⟩ := ih (hm.addMethod id method.1 method.2)
    rw [size_addMethod] at hle
    exact ⟨hlinked, Nat.le_of_succ_le hle⟩

theorem addConstructor (name : String) (f : Native) (proto : Proto)
    (methods : List (String × Native)) : (m.addConstructor name f proto methods).Linked := by
  have hsize : (m.addNative name f).heap.size = m.heap.size + 1 := m.heap.size_alloc _
  have hproto : (Value.object proto.id).Within (m.addNative name f).heap.size :=
    (hm.addNative name f).proto proto
  obtain ⟨hlinked, hle⟩ := ((hm.addNative name f).define m.heap.size "prototype" hproto).addMethods
    m.heap.size methods
  refine hlinked.setGlobal name (Nat.lt_of_lt_of_le ?_ hle)
  show m.heap.size < ((m.addNative name f).heap.modify _ _).size
  rw [Array.size_modify, hsize]
  exact Nat.lt_succ_self _

theorem withBasics : m.withBasics.Linked := by
  have hprotos (ps : List Proto) {m : Machine} (hm : m.Linked) :
      (ps.foldl (fun m p => m.addMethods p.id (protoMethods p)) m).Linked := by
    induction ps generalizing m with
    | nil => exact hm
    | cons p ps ih => exact ih (hm.addMethods p.id (protoMethods p)).1
  have hnamed := hm.define Proto.error.id "name" (v := .string "Error") trivial
  have hdescribed := hnamed.define Proto.error.id "message" (v := .string "") trivial
  have hmethods := hprotos Proto.all hdescribed
  have hundefined := hmethods.setGlobal "undefined" (v := .undefined) trivial
  have hnan := hundefined.setGlobal "NaN" (v := .number Numeric.nan) trivial
  exact hnan.setGlobal "Infinity" (v := .number Numeric.infinity) trivial

theorem withConstructors : m.withConstructors.Linked := by
  have herrors (cs : List ErrorClass) {m : Machine} (hm : m.Linked) :
      (cs.foldl (fun m c => m.addConstructor c.name (.errorConstructor c) .error []) m).Linked := by
    induction cs generalizing m with
    | nil => exact hm
    | cons c cs ih => exact ih (hm.addConstructor _ _ _ _)
  apply herrors
  iterate 5 apply addConstructor
  exact hm

end Linked

theorem bare_linked (maxCallDepth : Option UInt64) : (bare maxCallDepth).Linked where
  protos := Nat.le_refl _
  ordered id p hp := by
    match id with
    | 0 => cases hp
    | 1 | 2 | 3 | 4 | 5 | 6 =>
      cases hp
      decide
    | _ + 7 => cases hp
  objects id := by
    match id with
    | 0 | 1 | 2 | 3 | 4 | 5 | 6 => exact .bare (by rintro _ ⟨⟩) _
    | _ + 7 => exact .bare (by rintro _ ⟨⟩) _
  bindings i name b hb := by
    match i with
    | 0 => cases hb
    | _ + 1 => cases hb
  receivers i v hv := by
    match i with
    | 0 => cases hv
    | _ + 1 => cases hv

theorem start_linked (prelude : Bool) (maxCallDepth : Option UInt64) :
    (start prelude maxCallDepth).Linked := by
  have hbasics := (bare_linked maxCallDepth).withBasics
  unfold start
  split
  · exact hbasics.withConstructors
  · exact hbasics

/-- The machines of a session whose host binds functions of its own and passes on objects of the
machine: between programs, after any part of one, and at the calls that these make. -/
inductive InHostSession : Machine → Prop where
  | start (prelude : Bool) (maxCallDepth : Option UInt64) :
      InHostSession (Machine.start prelude maxCallDepth)
  | bindHost {m : Machine} (hm : InHostSession m) (name : String) (f : HostFunction) :
      InHostSession (m.addGlobal name (.host f))
  | program {m : Machine} (hm : InHostSession m) (program : Block) (stop : Machine → Bool)
      (fuel : Nat) : InHostSession (final (runUntil stop fuel program m))
  | activity {m : Machine} (hm : InHostSession m) {α : Type} (a : Activity α)
      (hvalues : ∀ v ∈ a.values, v.Within m.heap.size) (stop : Machine → Bool) (fuel rounds : Nat) :
      InHostSession (final (a.run (monitored (stopping stop) fuel) rounds m))

theorem InHostSession.linked {m : Machine} (hm : m.InHostSession) : m.Linked := by
  induction hm with
  | start prelude maxCallDepth => exact start_linked prelude maxCallDepth
  | bindHost _ name f ih => exact ih.addGlobal name (.host f)
  | program _ program stop fuel ih =>
    have hentries : ∀ n ∈ program.entries, Invariant.references.admits n := fun _ _ => trivial
    obtain ⟨_, -, hm⟩ := Invariant.references_lawful.program stop fuel ⟨rfl, ih.rest _ _ _⟩ hentries
    exact hm.2
  | activity _ a hvalues stop fuel rounds ih =>
    obtain ⟨_, -, hm⟩ := Invariant.references_lawful.activity stop fuel ⟨rfl, ih⟩ rounds
      (a := a) (fun _ _ => trivial) hvalues
    exact hm.2

/-- The machine after one write to an object: its field in an object literal, an assignment to one
of its properties, a push or a pop. -/
inductive WritesTo (m : Machine) (id : ObjectId) : Machine → Prop where
  | define (key : String) (v : Value) : WritesTo m id (final (Eval.define id key v m))
  | property (key : String) (v : Value) : WritesTo m id (final (writeProperty id key v m))
  | push (invoke : Invoke) (args : List Value) :
      WritesTo m id (final (Native.arrayPush.run invoke (.object id) args m))
  | pop (invoke : Invoke) (args : List Value) :
      WritesTo m id (final (Native.arrayPop.run invoke (.object id) args m))

namespace WritesTo

variable {m m' : Machine} {id : ObjectId}

theorem heap (h : m.WritesTo id m') :
    (∃ change, Object.KeepsPrototype change ∧ m'.heap = m.heap.modify id change) ∨
      ∃ o, m'.heap = m.heap.alloc o := by
  cases h with
  | define key v => exact .inl ⟨_, fun o => o.prototype_define key v, rfl⟩
  | property key v =>
    simp only [writeProperty, reading, bind, EStateM.bind]
    cases (m.heap.object id).slot? key v with
    | none => exact .inr ⟨_, rfl⟩
    | some slot => exact .inl ⟨_, fun o => o.prototype_write slot key v, rfl⟩
  | push invoke args =>
    rw [Native.run_arrayPush]
    cases (m.heap.object id).elements? with
    | none => exact .inr ⟨_, rfl⟩
    | some items =>
      dsimp only
      split
      · exact .inr ⟨_, rfl⟩
      · exact .inl ⟨_, fun o => o.prototype_append args, rfl⟩
  | pop invoke args =>
    simp only [Native.run, Native.thisArray, bind_assoc]
    simp only [reading, bind, EStateM.bind]
    cases (m.heap.object id).elements? with
    | none => exact .inr ⟨_, rfl⟩
    | some items => exact .inl ⟨_, fun o => o.prototype_dropLast, rfl⟩

variable {i : ObjectId} (h : m.WritesTo id m') (hi : i < m.heap.size)

include h hi

theorem prototype : (m'.heap.object i).prototype = (m.heap.object i).prototype := by
  obtain ⟨change, hkeeps, hheap⟩ | ⟨o, hheap⟩ := h.heap
  · rw [hheap, Heap.prototype_modify hkeeps]
  · rw [hheap, Heap.object_alloc, if_neg (Nat.ne_of_lt hi)]

theorem object (hne : i ≠ id) : m'.heap.object i = m.heap.object i := by
  obtain ⟨change, -, hheap⟩ | ⟨o, hheap⟩ := h.heap
  · rw [hheap, Heap.object_modify_eq, if_neg fun hid => hne hid.1]
  · rw [hheap, Heap.object_alloc, if_neg (Nat.ne_of_lt hi)]

end WritesTo

end Machine

/-- In a session no object is its own prototype, however indirectly. Each has a chain of prototypes
without repetitions, and a look-up finds the own value of the nearest object on it; an array answers
for an index itself. A write changes no chain, and what it changes for an object is on its chain. -/
theorem prototype_chains_end {m : Machine} (hm : m.InHostSession) :
    (WellFounded fun p id => (m.heap.object id).prototype = some p) ∧
    ∀ id < m.heap.size, ∃ chain, m.heap.Chain id chain ∧ chain.Nodup ∧
      (∀ i ∈ chain, i < m.heap.size) ∧
      (∀ key, m.heap.Finds key chain (m.heap.get id key)) ∧
      ((m.heap.object id).isArray = true → ∀ key, (arrayIndex? key).isSome = true →
        m.heap.get id key = ((m.heap.object id).getOwn? key).getD .undefined) ∧
      ∀ j m', m.WritesTo j m' → m'.heap.Chain id chain ∧
        ∀ key, m'.heap.get id key ≠ m.heap.get id key → j ∈ chain := by
  have hordered := hm.linked.ordered
  refine ⟨hordered.wellFounded, fun id hid => ?_⟩
  obtain ⟨chain, hchain⟩ := hordered.exists_chain id
  have hthere : ∀ i ∈ chain, i < m.heap.size := fun i hi =>
    Nat.lt_of_le_of_lt (hchain.le hordered i hi) hid
  refine ⟨chain, hchain, hchain.nodup hordered, hthere, hchain.finds_get hordered, ?_, ?_⟩
  · exact fun harray key hindex => Heap.get_index_of_isArray harray hindex
  · intro j m' hwrite
    refine ⟨hchain.congr fun i hi => hwrite.prototype (hthere i hi), fun key hdiffers => ?_⟩
    by_contra hj
    refine hdiffers (hchain.get_congr (fun i hi => hwrite.object (hthere i hi) ?_) key)
    rintro rfl
    exact hj hi

/-- An object of a function whose prototype is an object of the function, and that object's
prototype is the function itself. It is not reached by a write to the prototype that the function
came with. -/
theorem prototype_chains_end_chosen_prototypes :
    let source : Text.Source := ⟨"script",
      "function F() \x7b\x7d F.prototype = F; F.prototype = new F(); F.prototype.x = 1; var o = new F();"⟩
    ∃ program, Program.ofSource source = .ok program ∧
      ∃ m, m = final (runUntil (fun _ => false) 5 program (Machine.start false none)) ∧
        m.heap.Chain 36 [36, 35, 34, 1, 0] ∧
        m.heap.Finds "x" [36, 35, 34, 1, 0] (m.heap.get 36 "x") ∧
        ∀ key v, (final (writeProperty 33 key v m)).heap.get 36 key = m.heap.get 36 key := by
  intro source
  have hcomputed : (Program.ofSource source).toOption.map (fun program =>
      let m := final (runUntil (fun _ => false) 5 program (Machine.start false none))
      (m.heap.size, [36, 35, 34, 1, 0].map fun i => (m.heap.object i).prototype)) =
        some (37, [some 35, some 34, some 1, some 0, none]) := by
    decide +kernel
  obtain ⟨program, hprogram, hvalues⟩ := Program.exists_of_map hcomputed
  have hm : Machine.InHostSession _ := .program (.start false none) program (fun _ => false) 5
  -- only the prototypes matter from here on
  generalize hfinal : final (runUntil (fun _ => false) 5 program (Machine.start false none)) = m
    at hm hvalues
  simp only [List.map_cons, List.map_nil, Prod.mk.injEq, List.cons.injEq, and_true] at hvalues
  obtain ⟨hsize, h36, h35, h34, h1, h0⟩ := hvalues
  have hchain : m.heap.Chain 36 [36, 35, 34, 1, 0] :=
    .link h36 (.link h35 (.link h34 (.link h1 (.last h0))))
  obtain ⟨-, hchains⟩ := prototype_chains_end hm
  obtain ⟨chain, hchain', -, -, hfinds, -, hwrites⟩ := hchains 36 (by omega)
  obtain rfl := hchain.unique hchain'
  refine ⟨program, hprogram, m, hfinal.symm, hchain, hfinds "x", fun key v => ?_⟩
  by_contra hdiffers
  exact absurd ((hwrites 33 _ (.property key v)).2 key hdiffers) (by decide)

end ScriptEngine
