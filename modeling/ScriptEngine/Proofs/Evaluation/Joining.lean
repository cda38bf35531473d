import ScriptEngine.Evaluation.Call
import ScriptEngine.Prelude
import ScriptEngine.Proofs.Evaluation.ArrayForm

/-!
# Joining arrays that contain themselves

An array is joined by calling the `toString` of the arrays in it, which joins them in turn. Arrays
may share elements and contain each other, but an array that is being joined gives nothing a second
time, so every nested call has one array less to go into. With that many calls to make, joining ends
with the text that the heap alone determines, and leaves the machine as it was.
-/

namespace ScriptEngine

namespace Heap

/-- How many objects of the heap are not on a path. -/
def offPath (h : Heap) (path : List ObjectId) : ℕ :=
  (Finset.range h.size \ path.toFinset).card

theorem offPath_le (h : Heap) (path : List ObjectId) : h.offPath path ≤ h.size := by
  have hle := Finset.card_le_card (Finset.sdiff_subset (s := Finset.range h.size)
    (t := path.toFinset))
  rwa [Finset.card_range] at hle

theorem offPath_cons_lt {h : Heap} {path : List ObjectId} {id : ObjectId} (hsize : id < h.size)
    (hpath : id ∉ path) : h.offPath (id :: path) < h.offPath path := by
  unfold offPath
  rw [List.toFinset_cons, Finset.sdiff_insert]
  apply Finset.card_erase_lt_of_mem
  rw [Finset.mem_sdiff, Finset.mem_range, List.mem_toFinset]
  exact ⟨hsize, hpath⟩

/-- The text of an array with a separator between its elements. Elements that are null or undefined
give nothing, nor does an array on the path; other arrays are joined by commas. -/
def joined (h : Heap) (path : List ObjectId) (separator : String) (id : ObjectId) : String :=
  if _hpath : id ∈ path then ""
  else
    match _hkind : (h.object id).kind with
    | .array items =>
      separator.intercalate <| items.toList.map fun
        | .undefined | .null => ""
        | .object inner => h.joined (id :: path) "," inner
        | v => v.text?.getD ""
    | _ => ""
termination_by h.offPath path
decreasing_by exact offPath_cons_lt (lt_size_of_array _hkind) _hpath

def elementText (h : Heap) (path : List ObjectId) : Value → String
  | .undefined | .null => ""
  | .object inner => h.joined path "," inner
  | v => v.text?.getD ""

theorem joined_of_mem {h : Heap} {path : List ObjectId} {id : ObjectId} (hpath : id ∈ path)
    (separator : String) : h.joined path separator id = "" := by
  rw [joined, dif_pos hpath]

theorem joined_of_array {h : Heap} {path : List ObjectId} {id : ObjectId} {items : Array Value}
    (hpath : id ∉ path) (hkind : (h.object id).kind = .array items) (separator : String) :
    h.joined path separator id =
      separator.intercalate (items.toList.map (h.elementText (id :: path))) := by
  rw [joined, dif_neg hpath]
  split
  next items' hkind' =>
    rw [hkind'] at hkind
    cases hkind
    congr 1
  next hnone => exact absurd hkind (hnone items)

def Holds (h : Heap) (a b : ObjectId) : Prop :=
  ∃ items, (h.object a).kind = .array items ∧ .object b ∈ items

/-- An array whose `toString` is the built-in one of arrays. -/
def IsPlainArray (h : Heap) (id : ObjectId) : Prop :=
  (∃ items, (h.object id).kind = .array items) ∧
    ∃ f name, h.get id "toString" = .object f ∧ (h.object f).kind = .native name .arrayToString

/-- Elements lead from an object to nothing but arrays with the built-in `toString`. -/
def JoinsPlainly (h : Heap) (id : ObjectId) : Prop :=
  ∀ b, Relation.ReflTransGen h.Holds id b → h.IsPlainArray b

theorem JoinsPlainly.self {h : Heap} {id : ObjectId} (hid : h.JoinsPlainly id) :
    h.IsPlainArray id :=
  hid id .refl

theorem JoinsPlainly.element {h : Heap} {id inner : ObjectId} {items : Array Value}
    (hid : h.JoinsPlainly id) (hkind : (h.object id).kind = .array items)
    (hinner : .object inner ∈ items) : h.JoinsPlainly inner := by
  intro b hb
  exact hid b (.head ⟨items, hkind, hinner⟩ hb)

end Heap

namespace Eval

open Native

variable {m : Machine}

section Steps

variable {α : Type} {x : Eval α} {a : α}

theorem inFrame_of_ok {action : Eval Value} {v : Value} {frame : Frame}
    (h : action { m with frames := frame :: m.frames } =
      .ok v { m with frames := frame :: m.frames }) : inFrame frame action m = .ok v m := by
  refine (bind_of_ok rfl).trans ?_
  simp only [always, h, List.tail_cons]

theorem whileJoining_of_ok {id : ObjectId}
    (h : x { m with joining := id :: m.joining } = .ok a { m with joining := id :: m.joining }) :
    whileJoining id x m = .ok a m := by
  refine (bind_of_ok rfl).trans ?_
  simp only [always, h, List.tail_cons]

end Steps

theorem invoke_native {n : ℕ} {f : ObjectId} {name : String} {native : Native} {receiver v : Value}
    {args : List Value} {frame : Frame} (hlimit : m.maxCallDepth = none)
    (hkind : (m.heap.object f).kind = .native name native)
    (h : native.run (invoke n) receiver args { m with frames := frame :: m.frames } =
      .ok v { m with frames := frame :: m.frames }) :
    invoke (n + 1) f receiver args frame m = .ok v m := by
  have hdepth : reading atCallLimit m = .ok false m := by
    simp only [reading, atCallLimit, hlimit]
  refine (bind_of_ok hdepth).trans ?_
  apply inFrame_of_ok
  refine (bind_of_ok rfl).trans ?_
  simp only [hkind]
  exact h

theorem elementTexts_of_ok {call : Invoke} {text : Value → String} {items : List Value}
    (hnullish : ∀ v, v.isNullish = true → text v = "")
    (h : ∀ v ∈ items, v.isNullish = false → toText call v m = .ok (text v) m) :
    elementTexts call items m = .ok (items.map text) m := by
  induction items with
  | nil => rfl
  | cons v vs ih =>
    have hrest : elementTexts call vs m = .ok (vs.map text) m := by
      apply ih
      intro w hw
      exact h w (List.mem_cons_of_mem v hw)
    rw [elementTexts, List.map_cons]
    by_cases hv : v.isNullish = true
    · rw [if_pos hv, hnullish v hv]
      exact (bind_of_ok rfl).trans ((bind_of_ok hrest).trans rfl)
    · rw [if_neg hv]
      have htext := h v List.mem_cons_self (Bool.eq_false_iff.2 hv)
      exact (bind_of_ok htext).trans ((bind_of_ok hrest).trans rfl)

theorem toText_of_method {call : Invoke} {id f : ObjectId} {text : String}
    (hget : m.heap.get id "toString" = .object f)
    (hcallable : (m.heap.object f).kind.isCallable = true)
    (h : ∀ frame, call f (.object id) [] frame m = .ok (.string text) m) :
    toText call (.object id) m = .ok text m := by
  have hcallee : m.heap.callable? (.object f) = some f := if_pos hcallable
  have hread : reading (fun m => m.heap.get id "toString") m = .ok (.object f) m := by
    rw [reading, hget]
  have hfound : reading (fun m => m.heap.callable? (.object f)) m = .ok (some f) m := by
    rw [reading, hcallee]
  have hcall : callValue call (.object f) (.object id) [] m = .ok (.string text) m :=
    (bind_of_ok hfound).trans ((bind_of_ok rfl).trans (h _))
  have hprimitive : toPrimitive call (.object id) m = .ok (.string text) m :=
    (bind_of_ok hread).trans ((bind_of_ok hfound).trans ((bind_of_ok hcall).trans rfl))
  exact (bind_of_ok hprimitive).trans rfl

theorem toText_of_plainArray {n : ℕ} {id : ObjectId} {text : String}
    (hlimit : m.maxCallDepth = none) (hid : m.heap.IsPlainArray id)
    (h : ∀ frame, joinArray (invoke n) id "," { m with frames := frame :: m.frames } =
      .ok text { m with frames := frame :: m.frames }) :
    toText (invoke (n + 1)) (.object id) m = .ok text m := by
  obtain ⟨⟨items, hitems⟩, f, name, hget, hkind⟩ := hid
  apply toText_of_method hget (by rw [hkind]; rfl)
  intro frame
  apply invoke_native hlimit hkind
  have helements : (m.heap.object id).elements? = some items := by
    rw [Object.elements?, hitems]
  rw [run]
  refine (bind_of_ok (thisArray_of_elements (m := { m with frames := frame :: m.frames })
    helements "toString")).trans ?_
  exact (bind_of_ok (h frame)).trans rfl

theorem joinArray_of_mem {call : Invoke} {id : ObjectId} (hpath : id ∈ m.joining)
    (separator : String) : joinArray call id separator m = .ok "" m := by
  have hread : reading (fun m => m.joining.contains id) m = .ok true m := by
    rw [reading, List.contains_iff_mem.2 hpath]
  exact (bind_of_ok hread).trans rfl

theorem joinArray_of_not_mem {call : Invoke} {id : ObjectId} {items : Array Value}
    {texts : List String} (hpath : id ∉ m.joining) (hkind : (m.heap.object id).kind = .array items)
    (h : elementTexts call items.toList { m with joining := id :: m.joining } =
      .ok texts { m with joining := id :: m.joining }) (separator : String) :
    joinArray call id separator m = .ok (separator.intercalate texts) m := by
  have hread : reading (fun m => m.joining.contains id) m = .ok false m := by
    rw [reading, Bool.eq_false_iff.2 (mt List.contains_iff_mem.1 hpath)]
  have hitems : reading (fun m => ((m.heap.object id).elements?.getD #[]).toList) m =
      .ok items.toList m := by
    rw [reading, Object.elements?, hkind]
    rfl
  refine (bind_of_ok hread).trans ((bind_of_ok hitems).trans ?_)
  exact (bind_of_ok (whileJoining_of_ok h)).trans rfl

theorem toText_of_primitive {call : Invoke} {v : Value} (hv : v.isObject = false) :
    toText call v m = .ok (v.text?.getD "") m := by
  cases v with
  | object id => cases hv
  | _ => rfl

theorem joinArray_step {call : Invoke} {id : ObjectId} {items : Array Value}
    (hkind : (m.heap.object id).kind = .array items)
    (h : id ∉ m.joining → ∀ inner, .object inner ∈ items →
      toText call (.object inner) { m with joining := id :: m.joining } =
        .ok (m.heap.joined (id :: m.joining) "," inner) { m with joining := id :: m.joining })
    (separator : String) :
    joinArray call id separator m = .ok (m.heap.joined m.joining separator id) m := by
  by_cases hpath : id ∈ m.joining
  · rw [Heap.joined_of_mem hpath]
    exact joinArray_of_mem hpath separator
  · rw [Heap.joined_of_array hpath hkind]
    apply joinArray_of_not_mem hpath hkind
    apply elementTexts_of_ok
    · intro v hv
      cases v with
      | undefined => rfl
      | null => rfl
      | _ => cases hv
    · intro v hmem hv
      cases v with
      | undefined => cases hv
      | null => cases hv
      | object inner => exact h hpath inner (Array.mem_toList_iff.1 hmem)
      | _ => exact toText_of_primitive rfl

/-- With as many calls as there are objects off the path, joining gives the text that the heap
determines and changes nothing. -/
theorem joinArray_eq {n : ℕ} {id : ObjectId} (hlimit : m.maxCallDepth = none)
    (hfuel : m.heap.offPath m.joining ≤ n) (hid : m.heap.JoinsPlainly id) (separator : String) :
    joinArray (invoke n) id separator m = .ok (m.heap.joined m.joining separator id) m := by
  -- induction on the calls: an array off the path leaves one object less for the arrays in it
  induction n generalizing m id separator with
  | zero =>
    obtain ⟨⟨items, hkind⟩, -⟩ := hid.self
    apply joinArray_step hkind
    intro hpath
    have hless := Heap.offPath_cons_lt (Heap.lt_size_of_array hkind) hpath
    omega
  | succ n ih =>
    obtain ⟨⟨items, hkind⟩, -⟩ := hid.self
    apply joinArray_step hkind
    intro hpath inner hmem
    have hless := Heap.offPath_cons_lt (Heap.lt_size_of_array hkind) hpath
    have hinner := hid.element hkind hmem
    apply toText_of_plainArray (m := { m with joining := id :: m.joining }) hlimit hinner.self
    intro frame
    exact ih (m := { m with joining := id :: m.joining, frames := frame :: m.frames }) hlimit
      (show m.heap.offPath (id :: m.joining) ≤ n by omega) hinner ","

theorem toText_eq {n : ℕ} {id : ObjectId} (hlimit : m.maxCallDepth = none)
    (hfuel : m.heap.offPath m.joining < n) (hid : m.heap.JoinsPlainly id) :
    toText (invoke n) (.object id) m = .ok (m.heap.joined m.joining "," id) m := by
  obtain ⟨k, rfl⟩ : ∃ k, n = k + 1 := ⟨n - 1, by omega⟩
  apply toText_of_plainArray hlimit hid.self
  intro frame
  exact joinArray_eq (m := { m with frames := frame :: m.frames }) hlimit
    (show m.heap.offPath m.joining ≤ k by omega) hid ","

def separatorText (h : Heap) (path : List ObjectId) : Value → String
  | .undefined => ","
  | .object id => h.joined path "," id
  | v => v.text?.getD ""

theorem run_arrayJoin {n : ℕ} {id : ObjectId} {args : List Value} (hlimit : m.maxCallDepth = none)
    (hfuel : m.heap.offPath m.joining < n) (hid : m.heap.JoinsPlainly id)
    (hseparator : ∀ s, arg args 0 = .object s → m.heap.JoinsPlainly s) :
    Native.arrayJoin.run (invoke n) (.object id) args m =
      .ok (.string (m.heap.joined m.joining
        (separatorText m.heap m.joining (arg args 0)) id)) m := by
  obtain ⟨⟨items, hkind⟩, -⟩ := hid.self
  have helements : (m.heap.object id).elements? = some items := by
    rw [Object.elements?, hkind]
  have hjoin : ∀ separator, (do return Value.string (← joinArray (invoke n) id separator)) m =
      .ok (.string (m.heap.joined m.joining separator id)) m := by
    intro separator
    exact (bind_of_ok (joinArray_eq hlimit hfuel.le hid separator)).trans rfl
  rw [run]
  refine (bind_of_ok (thisArray_of_elements helements "join")).trans ?_
  cases hv : arg args 0 with
  | undefined => exact hjoin ","
  | object s => exact (bind_of_ok (toText_eq hlimit hfuel (hseparator s hv))).trans (hjoin _)
  | _ => exact (bind_of_ok (toText_of_primitive rfl)).trans (hjoin _)

/-- Arrays that elements connect in any way, and nothing but such arrays, are joined to the text
that the heap determines: by `join` with any separator that has a text itself, and by conversion to
a string. Nothing is changed, whichever arrays are being joined and whichever calls are active. -/
theorem cyclic_arrays_are_joined {m : Machine} {a : ObjectId} (hlimit : m.maxCallDepth = none)
    (ha : m.heap.JoinsPlainly a) {fuel : ℕ} (hfuel : m.heap.size + 2 ≤ fuel) (frame : Frame) :
    (∀ f name args, (m.heap.object f).kind = .native name .arrayJoin →
      (∀ s, arg args 0 = .object s → m.heap.JoinsPlainly s) →
        invoke fuel f (.object a) args frame m =
          .ok (.string (m.heap.joined m.joining
            (separatorText m.heap m.joining (arg args 0)) a)) m) ∧
    ∀ f name receiver rest, (m.heap.object f).kind = .native name .stringConstructor →
      invoke fuel f receiver (.object a :: rest) frame m =
        .ok (.string (m.heap.joined m.joining "," a)) m := by
  have hpath := m.heap.offPath_le m.joining
  obtain ⟨n, rfl⟩ : ∃ n, fuel = n + 1 := ⟨fuel - 1, by omega⟩
  refine ⟨?_, ?_⟩
  · intro f name args hkind hseparator
    apply invoke_native hlimit hkind
    exact run_arrayJoin (m := { m with frames := frame :: m.frames }) hlimit
      (show m.heap.offPath m.joining < n by omega) ha hseparator
  · intro f name receiver rest hkind
    apply invoke_native hlimit hkind
    have htext := toText_eq (m := { m with frames := frame :: m.frames }) hlimit
      (show m.heap.offPath m.joining < n by omega) ha
    exact (bind_of_ok htext).trans rfl

/-- A machine with two arrays: the first contains itself and the second, which contains the first.
-/
def entangled : Machine :=
  let m := (Machine.bare none).addMethods Proto.array.id
    [("join", .arrayJoin), ("toString", .arrayToString)]
  let first := Object.bare (.array #[.bool true, .object 9, .object 10]) (some Proto.array.id)
  let second := Object.bare (.array #[.object 9, .null, .string "x"]) (some Proto.array.id)
  { m with heap := (m.heap.alloc first).alloc second }

theorem entangled_first :
    (entangled.heap.object 9).kind = .array #[.bool true, .object 9, .object 10] :=
  rfl

theorem entangled_second :
    (entangled.heap.object 10).kind = .array #[.object 9, .null, .string "x"] :=
  rfl

theorem entangled_joinsPlainly : entangled.heap.JoinsPlainly 9 := by
  have hreach : ∀ b, Relation.ReflTransGen entangled.heap.Holds 9 b → b = 9 ∨ b = 10 := by
    intro b hb
    induction hb with
    | refl => exact .inl rfl
    | tail _ hstep ih =>
      obtain ⟨items, hkind, hmem⟩ := hstep
      rcases ih with rfl | rfl
      · rw [entangled_first] at hkind
        cases hkind
        simpa using hmem
      · rw [entangled_second] at hkind
        cases hkind
        exact .inl (by simpa using hmem)
  intro b hb
  rcases hreach b hb with rfl | rfl
  · exact ⟨⟨_, entangled_first⟩, 8, "toString", rfl, rfl⟩
  · exact ⟨⟨_, entangled_second⟩, 8, "toString", rfl, rfl⟩

theorem entangled_joined : entangled.heap.joined [] ";" 9 = "true;;,,x" := by
  have hself : entangled.heap.joined [9] "," 9 = "" := Heap.joined_of_mem (by decide) ","
  have hback : entangled.heap.joined [10, 9] "," 9 = "" := Heap.joined_of_mem (by decide) ","
  have hinner : entangled.heap.joined [9] "," 10 = ",,x" := by
    rw [Heap.joined_of_array (by decide) entangled_second]
    simp only [List.map_cons, List.map_nil, Heap.elementText, hback]
    decide
  rw [Heap.joined_of_array (by decide) entangled_first]
  simp only [List.map_cons, List.map_nil, Heap.elementText, hself, hinner]
  decide

/-- The first array is joined although it is in itself twice, once by way of the second. -/
theorem cyclic_arrays_are_joined_entangled :
    invoke 13 7 (.object 9) [.string ";"] ⟨"join", 1, 1⟩ entangled =
      .ok (.string "true;;,,x") entangled := by
  rw [← entangled_joined]
  exact (cyclic_arrays_are_joined rfl entangled_joinsPlainly (by decide) ⟨"join", 1, 1⟩).1 7 "join"
    [.string ";"] rfl nofun

end Eval

end ScriptEngine
