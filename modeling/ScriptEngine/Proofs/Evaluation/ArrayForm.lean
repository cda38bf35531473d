import ScriptEngine.Proofs.Evaluation.Invariant
import ScriptEngine.Proofs.Heap.IndexKeys

/-!
# Arrays in a run

If no array literal and no argument list of the programs is longer than an array can be, all arrays
keep their form. A property is defined without regard to elements only on objects that are no
arrays, so a run is watched together with the objects that are known to be none.
-/

namespace ScriptEngine

open Eval

def Function.Short (f : Function) : Prop :=
  ∀ n ∈ f.entries, n ≤ maxArrayLength

/-- All arrays have their form, functions are short and natives are built in. -/
structure Machine.Formed (m : Machine) : Prop where
  objects : ∀ id, (m.heap.object id).Formed
  admits : m.Admits Function.Short

namespace Machine

variable {m : Machine}

theorem Formed.alloc (hm : m.Formed) {o : Object} (ho : o.Formed)
    (hkind : o.kind.Admitted Function.Short) : Formed { m with heap := m.heap.alloc o } where
  objects id := by
    rw [Heap.object_alloc]
    split
    · exact ho
    · exact hm.objects id
  admits := hm.admits.alloc hkind

theorem Formed.modify (hm : m.Formed) {id : ObjectId} {change : Object → Object}
    (hchange : (change (m.heap.object id)).Formed)
    (hsimilar : ∀ o : Object, o.kind.Similar (change o).kind) :
    Formed { m with heap := m.heap.modify id change } where
  objects i := by
    rw [Heap.object_modify_eq]
    split
    next hi =>
      rw [hi.1]
      exact hchange
    next => exact hm.objects i
  admits := hm.admits.modify hsimilar id

def NoArrays (m : Machine) (w : ObjectId → Prop) : Prop :=
  ∀ id, w id → id < m.heap.size ∧ (m.heap.object id).isArray = false

end Machine

theorem Object.Kind.Similar.isArray {o o' : Object} (h : o.kind.Similar o'.kind) :
    o'.isArray = o.isArray := by
  obtain ⟨kind, prototype, properties⟩ := o
  obtain ⟨kind', prototype', properties'⟩ := o'
  cases h <;> rfl

namespace Invariant

/-- Arrays keep their form. A world has objects that are no arrays. -/
def arrays : Invariant where
  World := ObjectId → Prop
  le w w₁ := ∀ id, w id → w₁ id
  holds w m := m.Formed ∧ m.NoArrays w
  sound _ _ := True
  scope _ _ := True
  plain w id := w id
  admits n := n ≤ maxArrayLength

variable {w : ObjectId → Prop} {m : Machine}

theorem arrays_edit (hm : arrays.holds w m) {id : ObjectId} {change : Object → Object}
    (hchange : arrays.tandem.Edit w m.heap id change) :
    arrays.holds w { m with heap := m.heap.modify id change } := by
  obtain ⟨hm, hw⟩ := hm
  refine ⟨hm.modify ?_ hchange.similar, fun i hi => ?_⟩
  · cases hchange with
    | define hid => exact .define (hw id hid).2 _ _
    | write hslot => exact (hm.objects id).write hslot
    | append hitems hlength =>
      exact (hm.objects id).append (Object.elements?_eq_some_iff.mp hitems) hlength
    | dropLast => exact (hm.objects id).dropLast
  · obtain ⟨hlt, hnone⟩ := hw i hi
    rw [(m.heap.similar_modify hchange.similar id i).isArray]
    exact ⟨by simpa using hlt, hnone⟩

theorem formed_of_fresh {o o' : Object} (ho : arrays.tandem.Fresh w o o') :
    o.Formed ∧ o.kind.Admitted Function.Short := by
  cases ho with
  | plain => exact ⟨Object.formed_of_not_array rfl, trivial⟩
  | array hlength =>
    refine ⟨Object.formed_bare ?_ _, trivial⟩
    rintro _ ⟨⟩
    exact hlength
  | error name message ho =>
    subst ho
    exact ⟨Object.formed_of_not_array rfl, trivial⟩
  | closure hf => exact ⟨Object.formed_of_not_array rfl, hf⟩

theorem arrays_fresh (hm : arrays.holds w m) {o : Object} (ho : arrays.tandem.Fresh w o o) :
    arrays.holds (fun id => w id ∨ id = m.heap.size ∧ o.kind = .plain)
      { m with heap := m.heap.alloc o } := by
  obtain ⟨hm, hw⟩ := hm
  obtain ⟨hformed, hadmitted⟩ := formed_of_fresh ho
  have hsize : (m.heap.alloc o).size = m.heap.size + 1 := Array.size_push ..
  refine ⟨hm.alloc hformed hadmitted, fun id hid => ?_⟩
  show id < (m.heap.alloc o).size ∧ ((m.heap.alloc o).object id).isArray = false
  rw [hsize, Heap.object_alloc]
  rcases hid with hid | ⟨rfl, hplain⟩
  · obtain ⟨hlt, hnone⟩ := hw id hid
    rw [if_neg (Nat.ne_of_lt hlt)]
    exact ⟨Nat.lt_succ_of_lt hlt, hnone⟩
  · rw [if_pos rfl]
    exact ⟨Nat.lt_succ_self _, by simp [Object.isArray, Object.elements?, hplain]⟩

theorem arrays_lawful : arrays.Lawful where
  refl _ _ h := h
  trans h₁ h₂ id h := h₂ id (h₁ id h)
  sound_mono _ _ := trivial
  scope_mono _ _ := trivial
  plain_mono h hid := h _ hid
  primitive _ := trivial
  admits_of_le hn hk := Nat.le_trans hn hk
  admits_max := Nat.le_refl _
  current _ := trivial
  proto _ _ := trivial
  get _ _ _ := trivial
  elements hm id items hitems :=
    ⟨(hm.1.objects id items (Object.elements?_eq_some_iff.mp hitems)).size_le, fun _ _ => trivial⟩
  closure hm id f s hkind := by
    have hadmitted := hm.1.admits id
    rw [hkind] at hadmitted
    exact ⟨hadmitted, trivial⟩
  host hm id name f hkind := by
    have hadmitted := hm.1.admits id
    rw [hkind] at hadmitted
    cases hadmitted
  bound _ _ _ _ _ := trivial
  nearest? _ _ _ _ _ _ := trivial
  receiver _ _ := trivial
  enter hm _ _ := ⟨⟨hm.1.objects, hm.1.admits⟩, hm.2⟩
  calls hm _ _ := ⟨⟨hm.1.objects, hm.1.admits⟩, hm.2⟩
  put hm _ _ _ _ _ := ⟨⟨hm.1.objects, hm.1.admits⟩, hm.2⟩
  add {w _} hm _ _ _ _ _ :=
    ⟨w, fun _ h => h, trivial, ⟨hm.1.objects, hm.1.admits⟩, hm.2⟩
  fresh hm o ho :=
    ⟨_, fun _ h => .inl h, trivial, fun hplain => .inr ⟨rfl, hplain⟩, arrays_fresh hm ho⟩
  edit hm _ _ hchange := arrays_edit hm hchange

end Invariant

theorem Machine.start_formed (prelude : Bool) (maxCallDepth : Option UInt64) :
    (start prelude maxCallDepth).Formed := by
  -- there are no arrays yet
  have hnone : ∀ id, ((start prelude maxCallDepth).heap.object id).isArray = false := by
    refine start_induction (Q := fun m => ∀ id, (m.heap.object id).isArray = false)
      ?_ ?_ ?_ maxCallDepth ?_ prelude
    · intro m id key v hm i
      rw [← hm i]
      exact (m.heap.similar_modify (fun o => o.similar_define key v) id i).isArray
    · intro m name f _ hm i
      simp only [addNative, Heap.object_alloc]
      split
      · rfl
      · exact hm i
    · exact fun m name v hm => hm
    · intro id
      simp only [Machine.bare, Heap.object, Array.getD_eq_getD_getElem?, List.getElem?_toArray,
        List.getElem?_map]
      cases Proto.all[id]? <;> rfl
  exact ⟨fun id => Object.formed_of_not_array (hnone id), start_admits _ prelude maxCallDepth⟩

theorem Heap.lt_size_of_array {h : Heap} {id : ObjectId} {items : Array Value}
    (hkind : (h.object id).kind = .array items) : id < h.size := by
  by_contra hid
  have hnone : h.object id = default := by simp [Heap.object, Nat.le_of_not_lt hid]
  rw [hnone] at hkind
  cases hkind

namespace Eval

variable {m : Machine} {id : ObjectId}

theorem object_throwNamed (hid : id < m.heap.size) (c : ErrorClass) (message : String) {α : Type} :
    (final ((throwNamed c message : Eval α) m)).heap.object id = m.heap.object id := by
  show ((m.heap.alloc _).object id) = _
  rw [Heap.object_alloc, if_neg (Nat.ne_of_lt hid)]

theorem object_writeProperty (hid : id < m.heap.size) (key : String) (v : Value) :
    (final (writeProperty id key v m)).heap.object id =
      ((m.heap.object id).set? key v).getD (m.heap.object id) := by
  simp only [writeProperty, reading, bind, EStateM.bind, Object.set?]
  cases (m.heap.object id).slot? key v with
  | none => exact object_throwNamed hid _ _
  | some slot =>
    show Heap.object (m.heap.modify id _) id = _
    rw [Heap.object_modify_eq, if_pos ⟨rfl, hid⟩]
    rfl

theorem writeProperty_succeeds_iff (id : ObjectId) (key : String) (v : Value) (m : Machine) :
    (∃ m', writeProperty id key v m = .ok () m') ↔ ((m.heap.object id).set? key v).isSome := by
  simp only [writeProperty, reading, bind, EStateM.bind, Object.set?, Option.isSome_map]
  cases (m.heap.object id).slot? key v with
  | none =>
    constructor
    · rintro ⟨_, ⟨⟩⟩
    · intro h
      cases h
  | some slot => exact ⟨fun _ => rfl, fun _ => ⟨_, rfl⟩⟩

theorem object_arrayPush_of_error (hid : id < m.heap.size) {f : Invoke} {args : List Value}
    {e : Failure} {m' : Machine} (h : Native.arrayPush.run f (.object id) args m = .error e m') :
    m'.heap.object id = m.heap.object id := by
  rw [Native.run_arrayPush] at h
  have hfinal : m' = final (EStateM.Result.error e m' : EStateM.Result Failure Machine Value) := rfl
  split at h
  next items _ =>
    split at h
    next =>
      rw [hfinal, ← h]
      exact object_throwNamed hid _ _
    next => cases h
  next =>
    rw [hfinal, ← h]
    exact object_throwNamed hid _ _

end Eval

/-- The machines of a session without functions of a host, in which no list of a program is longer
than an array can be: after a program, after any part of one, and at the calls that these make. -/
inductive Machine.InShortSession : Machine → Prop where
  | start (prelude : Bool) (maxCallDepth : Option UInt64) :
      InShortSession (Machine.start prelude maxCallDepth)
  | program {m : Machine} (hm : InShortSession m) {program : Block}
      (hprogram : ∀ n ∈ program.entries, n ≤ maxArrayLength) (stop : Machine → Bool) (fuel : Nat) :
      InShortSession (final (runUntil stop fuel program m))
  | activity {m : Machine} (hm : InShortSession m) {α : Type} {a : Activity α}
      (ha : ∀ n ∈ a.entries, n ≤ maxArrayLength) (stop : Machine → Bool) (fuel rounds : Nat) :
      InShortSession (final (a.run (monitored (stopping stop) fuel) rounds m))

theorem Machine.InShortSession.formed {m : Machine} (hm : m.InShortSession) : m.Formed := by
  induction hm with
  | start prelude maxCallDepth => exact start_formed prelude maxCallDepth
  | program _ hprogram stop fuel ih =>
    -- no object need be known to be no array: a run defines properties on its own new objects
    have hrest : Invariant.arrays.holds (fun _ => False) (atRest _) :=
      ⟨⟨ih.objects, ih.admits⟩, nofun⟩
    obtain ⟨_, -, hm⟩ := Invariant.arrays_lawful.program stop fuel hrest hprogram
    exact hm.1
  | activity _ ha stop fuel rounds ih =>
    have hstart : Invariant.arrays.holds (fun _ => False) _ := ⟨ih, nofun⟩
    obtain ⟨_, -, hm⟩ :=
      Invariant.arrays_lawful.activity stop fuel hstart rounds ha fun _ _ => trivial
    exact hm.1

/-- An array of a session keeps to the limit, has no property with the key of its length or of an
element, and lists each key that it has but its length once. A write to it fails and leaves it, or
changes what the key is about; a push that fails leaves it, too. -/
theorem arrays_keep_their_form {m : Machine} (hm : m.InShortSession) {id : ObjectId} {o : Object}
    (ho : m.heap.object id = o) {items : Array Value} (hitems : o.kind = .array items) :
    items.size ≤ maxArrayLength ∧ "length" ∉ o.properties ∧
    (∀ i < 2 ^ 32 - 1, toString i ∉ o.properties) ∧
    o.keys.Nodup ∧ (∀ key, key ∈ o.keys ↔ key ≠ "length" ∧ o.hasOwn key = true) ∧
    (∀ key v, o.set? key v = none ↔ (key = "length" ∧ v.number?.bind arrayLength? = none) ∨
      ∃ i, arrayIndex? key = some i ∧ maxArrayLength ≤ i) ∧
    (∀ key v o', o.set? key v = some o' → o.Stores items key v o') ∧
    (∀ key v, ((∃ m', writeProperty id key v m = .ok () m') ↔ (o.set? key v).isSome) ∧
      (final (writeProperty id key v m)).heap.object id = (o.set? key v).getD o) ∧
    ∀ f args e m', Native.arrayPush.run f (.object id) args m = .error e m' →
      m'.heap.object id = o := by
  subst ho
  have hid := Heap.lt_size_of_array hitems
  have hform := hm.formed.objects id items hitems
  refine ⟨hform.size_le, hform.length, fun i hi hmem => ?_, ?_, ?_, fun key v => ?_, ?_, ?_, ?_⟩
  · have hnone := hform.index _ hmem
    rw [arrayIndex?_toString hi] at hnone
    cases hnone
  · exact (hm.formed.objects id).nodup_keys hitems
  · exact (hm.formed.objects id).mem_keys_iff hitems
  · exact Object.set?_eq_none_iff hitems
  · exact fun key v o' => Object.stores_set? hitems
  · exact fun key v => ⟨writeProperty_succeeds_iff id key v m, object_writeProperty hid key v⟩
  · exact fun f args e m' => object_arrayPush_of_error hid

/-- An array with an element and a property. -/
theorem arrays_keep_their_form_named_property :
    let a : Ident := ⟨"a", default⟩
    let program : Block := .mk default
      [.expression default (.assign default (.name a) (.array default [.bool default true])),
       .expression default (.assign default
        (.member (.identifier default "a") (.named ⟨"x", default⟩)) (.bool default true))]
    let m := final (runUntil (fun _ => false) 1 program (Machine.start false none))
    ∃ items, (m.heap.object 31).kind = .array items ∧ items.size ≤ maxArrayLength ∧
      (m.heap.object 31).keys = ["0", "x"] ∧ (m.heap.object 31).hasOwn "x" = true := by
  intro a program m
  have hkeys : (m.heap.object 31).keys = ["0", "x"] := by decide +kernel
  have harray : (m.heap.object 31).isArray = true := by decide +kernel
  obtain ⟨items, hitems⟩ := Option.isSome_iff_exists.mp harray
  have hkind := Object.elements?_eq_some_iff.mp hitems
  have hm : m.InShortSession :=
    .program (.start false none) (by decide) (fun _ => false) 1
  obtain ⟨hsize, -, -, -, hmem, -⟩ := arrays_keep_their_form hm rfl hkind
  refine ⟨items, hkind, hsize, hkeys, ((hmem "x").mp ?_).2⟩
  rw [hkeys]
  decide

end ScriptEngine
