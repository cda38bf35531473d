import ScriptEngine.Proofs.Evaluation.CompoundForms
import ScriptEngine.Proofs.Evaluation.Positions
import ScriptEngine.Proofs.Heap.ComputedKeys

/-!
# The units of a string

An index reads a unit of a string in four ways: as a computed key, by its presence among the
string's own keys, as a character and as a slice of one unit. Below the length all of them see the
unit, and from there on none does. A search tries the places from its start on that leave room for
the whole run, so it ends with the first place where the run stands and reads nothing outside the
string.
-/

namespace ScriptEngine

open Numeric Text

namespace Native

section Searching

variable {needle us : List Unit16} {start j : ℕ}

def StandsAt (needle us : List Unit16) (j : ℕ) : Prop :=
  ∃ before behind, us = before ++ (needle ++ behind) ∧ before.length = j

theorem standsAt_iff :
    StandsAt needle us j ↔ j + needle.length ≤ us.length ∧ needle <+: us.drop j := by
  constructor
  · rintro ⟨before, behind, rfl, rfl⟩
    rw [List.drop_left]
    refine ⟨?_, List.prefix_append needle behind⟩
    simp only [List.length_append]
    omega
  · rintro ⟨hroom, behind, hbehind⟩
    refine ⟨us.take j, behind, ?_, ?_⟩
    · rw [hbehind, List.take_append_drop]
    · rw [List.length_take]
      omega

theorem findAmong_drop (needle us : List Unit16) (places i : ℕ) :
    findAmong needle places i (us.drop i) =
      (List.range' i places).find? fun j => needle.isPrefixOf (us.drop j) := by
  induction places generalizing i with
  | zero => rfl
  | succ places ih =>
    rw [findAmong, List.range'_succ, List.find?_cons, List.drop_drop, ih]
    cases needle.isPrefixOf (us.drop i) with
    | true => rfl
    | false => rfl

theorem findUnits_eq (needle : List Unit16) (start : ℕ) (us : List Unit16) :
    findUnits needle start us =
      (List.range' start (us.length - start + 1 - needle.length)).find? fun j =>
        needle.isPrefixOf (us.drop j) := by
  unfold findUnits
  dsimp only
  rw [findAmong_drop, List.length_drop]

theorem isLeast_of_findUnits (h : findUnits needle start us = some j) (hstart : start ≤ us.length) :
    IsLeast {j | start ≤ j ∧ StandsAt needle us j} j := by
  rw [findUnits_eq, List.find?_range'_eq_some] at h
  obtain ⟨hstands, hmem, hbefore⟩ := h
  rw [List.mem_range'_1] at hmem
  refine ⟨⟨hmem.1, standsAt_iff.2 ⟨by omega, List.isPrefixOf_iff_prefix.1 hstands⟩⟩, ?_⟩
  rintro k ⟨hk, hother⟩
  by_contra hlt
  have hnot := hbefore k hk (not_le.1 hlt)
  rw [List.isPrefixOf_iff_prefix.2 (standsAt_iff.1 hother).2] at hnot
  cases hnot

theorem not_standsAt_of_findUnits (h : findUnits needle start us = none) (hj : start ≤ j) :
    ¬StandsAt needle us j := by
  intro hstands
  obtain ⟨hroom, hinitial⟩ := standsAt_iff.1 hstands
  rw [findUnits_eq, List.find?_range'_eq_none] at h
  have hnot := h j hj (by omega)
  rw [List.isPrefixOf_iff_prefix.2 hinitial] at hnot
  cases hnot

def unitsBetween? (us : List Unit16) (start stop : ℕ) : Option (List Unit16) :=
  if start ≤ stop ∧ stop ≤ us.length then some ((us.drop start).take (stop - start)) else none

/-- The first of some places where a run of units stands. The run is compared with the units between
its bounds, and the search fails where these are not within the sequence. -/
def searchWithin (needle us : List Unit16) : List ℕ → Option (Option ℕ)
  | [] => some none
  | j :: js =>
    if needle.length ≤ us.length then
      (unitsBetween? us j (j + needle.length)).bind fun here =>
        if here = needle then some (some j) else searchWithin needle us js
    else searchWithin needle us js

theorem isPrefixOf_of_lt (h : us.length < needle.length) (j : ℕ) :
    needle.isPrefixOf (us.drop j) = false := by
  rw [← Bool.not_eq_true, List.isPrefixOf_iff_prefix]
  intro hinitial
  have hle := hinitial.length_le
  rw [List.length_drop] at hle
  omega

theorem searchWithin_eq {js : List ℕ}
    (hroom : ∀ j ∈ js, needle.length ≤ us.length → j + needle.length ≤ us.length) :
    searchWithin needle us js = some (js.find? fun j => needle.isPrefixOf (us.drop j)) := by
  induction js with
  | nil => rfl
  | cons j js ih =>
    obtain ⟨hj, hjs⟩ := List.forall_mem_cons.1 hroom
    rw [searchWithin, List.find?_cons, ih hjs]
    by_cases hlength : needle.length ≤ us.length
    · have hbetween : unitsBetween? us j (j + needle.length) =
          some ((us.drop j).take needle.length) := by
        unfold unitsBetween?
        rw [if_pos ⟨Nat.le_add_right j _, hj hlength⟩, Nat.add_sub_cancel_left]
      have hhere : (us.drop j).take needle.length = needle ↔
          needle.isPrefixOf (us.drop j) = true := by
        rw [List.isPrefixOf_iff_prefix, List.prefix_iff_eq_take, eq_comm]
      rw [if_pos hlength, hbetween, Option.bind_some]
      simp only [hhere]
      cases needle.isPrefixOf (us.drop j) with
      | true => rfl
      | false => rfl
    · rw [if_neg hlength, isPrefixOf_of_lt (not_le.1 hlength)]

theorem searchWithin_range (hstart : start ≤ us.length) :
    searchWithin needle us (List.range' start (us.length - needle.length + 1 - start)) =
      some (findUnits needle start us) := by
  rw [searchWithin_eq, findUnits_eq]
  · by_cases hlength : needle.length ≤ us.length
    · congr 3
      omega
    · have hnone : ∀ js : List ℕ, (js.find? fun j => needle.isPrefixOf (us.drop j)) = none := by
        intro js
        rw [List.find?_eq_none]
        intro j _
        rw [isPrefixOf_of_lt (not_le.1 hlength)]
        exact Bool.false_ne_true
      rw [hnone, hnone]
  · intro j hj hlength
    rw [List.mem_range'_1] at hj
    omega

/-- The answer of a search: the first place from its start on where the run stands, or minus one
where there is none. The search for it reads nothing outside the sequence. -/
inductive SearchAnswers (needle us : List Unit16) (start : ℕ) : Value → Prop
  | found {j : ℕ} : IsLeast {j | start ≤ j ∧ StandsAt needle us j} j →
      searchWithin needle us (List.range' start (us.length - needle.length + 1 - start)) =
        some (some j) → SearchAnswers needle us start (.ofNat j)
  | missing : (∀ j, start ≤ j → ¬StandsAt needle us j) →
      searchWithin needle us (List.range' start (us.length - needle.length + 1 - start)) =
        some none → SearchAnswers needle us start (.ofInt (-1))

theorem searchAnswers_findUnits (hstart : start ≤ us.length) :
    SearchAnswers needle us start ((findUnits needle start us).elim (.ofInt (-1)) .ofNat) := by
  have hwithin : searchWithin needle us _ = _ := searchWithin_range hstart
  cases hfound : findUnits needle start us with
  | none =>
    rw [hfound] at hwithin
    exact .missing (fun j hj => not_standsAt_of_findUnits hfound hj) hwithin
  | some j =>
    rw [hfound] at hwithin
    exact .found (isLeast_of_findUnits hfound hstart) hwithin

end Searching

section Starts

/-- The place from which a number starts a search: its integer part, at least zero and at most the
length. -/
inductive SearchesFrom (x : Float) (length p : ℕ) : Prop where
  | nan (hx : isNaN x = true) (hp : p = 0)
  | infinite {negative : Bool} (hx : decode x = .infinite negative)
      (hp : p = if negative then 0 else length)
  | finite {v : ℚ} (hx : value? x = some v) (hp : (p : ℤ) = min (max (towardZero v) 0) length)

variable {x : Float} {length p : ℕ}

theorem SearchesFrom.le (h : SearchesFrom x length p) : p ≤ length := by
  cases h with
  | nan hx hp => omega
  | infinite hx hp => split at hp <;> omega
  | finite hx hp => omega

theorem searchesFrom_start (x : Float) (length : ℕ) :
    SearchesFrom x length (if x < 0 then 0 else relativeIndex x length) := by
  cases hx : decode x with
  | nan =>
    have hnan := isNaN_iff.2 hx
    refine .nan hnan ?_
    rw [relativeIndex_of_isNaN hnan, ite_self]
  | infinite negative =>
    refine .infinite hx ?_
    have hindex : relativeIndex x length = if negative then 0 else length := by
      unfold relativeIndex
      rw [hx]
    rw [hindex]
    cases negative with
    | true => exact ite_self 0
    | false =>
      obtain rfl := eq_of_decode_infinite hx
      exact if_neg (by decide)
  | finite negative m e =>
    have hv := value?_of_decode hx
    refine .finite hv ?_
    generalize (if negative then -1 else 1) * ((m : ℚ) * 2 ^ e) = v at hv
    simp only [lt_zero_iff hv, relativeIndex_of_value hv]
    by_cases hneg : v < 0
    · have hnonpos := towardZero_nonpos hneg
      rw [if_pos hneg]
      omega
    · have hnonneg := towardZero_nonneg (not_lt.1 hneg)
      rw [if_neg hneg, if_neg hneg]
      omega

end Starts

section Methods

variable (invoke : Invoke) (s : String) (m : Machine) {x y : Float} {i : ℕ}

theorem run_indexOf (needle : String) (x : Float) :
    run invoke .stringIndexOf (.string s) [.string needle, .number x] m =
      .ok ((findUnits (units needle) (if x < 0 then 0 else relativeIndex x (units s).length)
        (units s)).elim (.ofInt (-1)) .ofNat) m := by
  have htext : ∀ t : String, Eval.toText invoke (.string t) = pure t := fun _ => rfl
  have hnumber : Eval.toNumber invoke (.number x) = pure x := rfl
  simp only [run, arg, List.getD_cons_zero, List.getD_cons_succ, htext, hnumber, pure_bind]
  cases findUnits (units needle) (if x < 0 then 0 else relativeIndex x (units s).length)
    (units s) <;> rfl

theorem relativeIndex_of_natural (hx : value? x = some (i : ℚ)) (length : ℕ) :
    relativeIndex x length = min i length := by
  rw [relativeIndex_of_value hx, if_neg (not_lt.2 (Nat.cast_nonneg i)), towardZero_natCast,
    Int.toNat_natCast]

theorem run_charAt_of_value (hx : value? x = some (i : ℚ)) :
    run invoke .stringCharAt (.string s) [.number x] m =
      .ok (.string (ofUnits (units s)[i]?.toList)) m := by
  have hunit : unitAt s x = ofUnits (units s)[i]?.toList := by
    unfold unitAt
    rw [truncate?_eq_some hx, towardZero_natCast]
    simp only [Int.natCast_nonneg, if_true, Int.toNat_natCast, unitAt?_eq]
    rfl
  rw [← hunit]
  rfl

theorem run_slice_of_value (hx : value? x = some (i : ℚ)) (hy : value? y = some ((i + 1 : ℕ) : ℚ)) :
    run invoke .stringSlice (.string s) [.number x, .number y] m =
      .ok (.string (ofUnits (units s)[i]?.toList)) m := by
  have hslice : ((units s).drop (relativeIndex x (units s).length)).take
      (max (relativeIndex y (units s).length) (relativeIndex x (units s).length) -
        relativeIndex x (units s).length) = (units s)[i]?.toList := by
    rw [relativeIndex_of_natural hx, relativeIndex_of_natural hy]
    generalize units s = us
    by_cases hi : i < us.length
    · have hone : max (min (i + 1) us.length) (min i us.length) - min i us.length = 1 := by omega
      rw [hone, min_eq_left hi.le, List.take_one, List.head?_drop]
    · rw [min_eq_right (not_lt.1 hi), List.drop_length, List.take_nil,
        List.getElem?_eq_none (not_lt.1 hi)]
      rfl
  rw [← hslice]
  rfl

end Methods

end Native

section Indexing

variable (invoke : Invoke) {s : String} {x : Float} {i : ℕ}

theorem ne_length_of_index (hx : arrayIndex? (render x) = some i) : render x ≠ "length" := by
  intro h
  rw [h, arrayIndex?_length] at hx
  cases hx

def unitValue (s : String) (i : ℕ) : Value :=
  (units s)[i]?.elim .undefined fun u => .string (ofUnits [u])

theorem propertyOf_string (h : Heap) (hx : arrayIndex? (render x) = some i) :
    Eval.propertyOf h (.string s) (render x) = unitValue s i := by
  unfold Eval.propertyOf unitValue
  dsimp only
  rw [if_neg (ne_length_of_index hx), hx]
  dsimp only
  rw [unitAt?_eq]
  unfold units
  cases (s.toList.flatMap charUnits)[i]? <;> rfl

theorem eval_member_string {o : Origin} {object e : Expr} {m m₁ m₂ : Machine}
    (hobject : object.eval invoke m = .ok (.string s) m₁)
    (he : e.eval invoke m₁ = .ok (.number x) m₂) (hx : arrayIndex? (render x) = some i) :
    (Expr.member o object (.computed e)).eval invoke m = .ok (unitValue s i) m₂ := by
  rw [Expr.eval, Eval.bind_of_ok hobject, Eval.bind_of_ok (key_of_text? he rfl),
    Eval.checkBase_of_isNullish_eq_false .read rfl, pure_bind, ← propertyOf_string m₂.heap hx]
  rfl

theorem run_hasOwnProperty_string (m : Machine) (hx : arrayIndex? (render x) = some i) :
    Native.run invoke .hasOwnProperty (.string s) [.number x] m =
      .ok (.bool (decide (i < (units s).length))) m := by
  have howns : Native.ownsKey m.heap (.string s) (render x) = decide (i < (units s).length) := by
    unfold Native.ownsKey
    dsimp only
    rw [beq_eq_false_iff_ne.2 (ne_length_of_index hx), hx, unitLength_eq]
    rfl
  rw [← howns]
  rfl

theorem unitValue_eq_undefined_iff : unitValue s i = .undefined ↔ (units s).length ≤ i := by
  unfold unitValue
  rw [← List.getElem?_eq_none_iff]
  cases (units s)[i]? with
  | none => exact iff_of_true rfl rfl
  | some u => exact iff_of_false nofun nofun

end Indexing

/-- What is read of a string at an index: a value under the computed key, and a text as the
character and as the slice of one unit. Inside the string the value is the text, and outside there
is neither. -/
structure ReadsUnit (invoke : Invoke) (s : String) (i : ℕ) (x y : Float) (v : Value) (t : String) :
    Prop where
  indexed : ∀ o object e m m₁ m₂, object.eval invoke m = .ok (.string s) m₁ →
    e.eval invoke m₁ = .ok (.number x) m₂ →
    (Expr.member o object (.computed e)).eval invoke m = .ok v m₂
  owned : ∀ m, Native.run invoke .hasOwnProperty (.string s) [.number x] m =
    .ok (.bool (decide (i < (units s).length))) m
  character : ∀ m, Native.run invoke .stringCharAt (.string s) [.number x] m = .ok (.string t) m
  sliced : ∀ m, Native.run invoke .stringSlice (.string s) [.number x, .number y] m =
    .ok (.string t) m
  undefined_iff : v = .undefined ↔ (units s).length ≤ i
  inside : i < (units s).length → v = .string t
  outside : (units s).length ≤ i → t = ""

theorem readsUnit (invoke : Invoke) (s : String) {i : ℕ} {x y : Float} (hi : i < 4294967295)
    (hx : value? x = some (i : ℚ)) (hy : value? y = some ((i + 1 : ℕ) : ℚ)) :
    ReadsUnit invoke s i x y (unitValue s i) (ofUnits (units s)[i]?.toList) := by
  have hindex := (arrayIndex?_render_iff x i).2 ⟨hx, Nat.le_of_lt_succ hi⟩
  constructor
  · intro o object e m m₁ m₂ hobject he
    exact eval_member_string invoke hobject he hindex
  · exact fun m => run_hasOwnProperty_string invoke m hindex
  · exact fun m => Native.run_charAt_of_value invoke s m hx
  · exact fun m => Native.run_slice_of_value invoke s m hx hy
  · exact unitValue_eq_undefined_iff
  · intro hlt
    unfold unitValue
    rw [List.getElem?_eq_getElem hlt]
    rfl
  · intro hle
    rw [List.getElem?_eq_none hle]
    rfl

/-- Indexing and searching agree on the units of a string. At every index of an array the computed
key, the own keys, the character and the slice of one unit see the same unit, or none from the
length on. A search takes the integer part of its start, at least zero and at most the length, and
answers with the first place from there on where the run stands. -/
theorem strings_are_read_by_units (invoke : Invoke) (s : String) :
    (∀ (i : ℕ) (x y : Float), i < 4294967295 → value? x = some (i : ℚ) →
      value? y = some ((i + 1 : ℕ) : ℚ) → ∃ v t, ReadsUnit invoke s i x y v t) ∧
    ∀ (needle : String) (x : Float), ∃ start answer,
      Native.SearchesFrom x (units s).length start ∧
      Native.SearchAnswers (units needle) (units s) start answer ∧
      ∀ m, Native.run invoke .stringIndexOf (.string s) [.string needle, .number x] m =
        .ok answer m := by
  refine ⟨fun i x y hi hx hy => ⟨_, _, readsUnit invoke s hi hx hy⟩, fun needle x => ?_⟩
  have hstart := Native.searchesFrom_start x (units s).length
  exact ⟨_, _, hstart, Native.searchAnswers_findUnits hstart.le,
    fun m => Native.run_indexOf invoke s m needle x⟩

/-- Half of a surrogate pair, and nothing searched for from behind the end. -/
theorem strings_are_read_by_units_surrogate :
    (∃ v t, ReadsUnit (fun _ _ _ _ => throw .outOfFuel) "a😀" 1 (Float.ofNat 1) (Float.ofNat 2) v t ∧
      v = .string t ∧ t = "\uFFFD") ∧
    ∃ start answer, Native.SearchAnswers (units "") (units "a😀") start answer ∧
      Native.run (fun _ _ _ _ => throw .outOfFuel) .stringIndexOf (.string "a😀")
        [.string "", .number infinity] (Machine.bare none) = .ok answer (Machine.bare none) := by
  obtain ⟨hreads, hsearch⟩ :=
    strings_are_read_by_units (fun _ _ _ _ => throw .outOfFuel) "a😀"
  constructor
  · obtain ⟨v, t, h⟩ := hreads 1 (Float.ofNat 1) (Float.ofNat 2) (by norm_num)
      (value?_ofNat (by norm_num)) (value?_ofNat (by norm_num))
    have hhalf : Native.unitAt "a😀" (Float.ofNat 1) = "\uFFFD" := by decide
    have hcharacter := h.character (Machine.bare none)
    change EStateM.Result.ok (Value.string (Native.unitAt "a😀" (Float.ofNat 1))) _ = _ at hcharacter
    rw [hhalf] at hcharacter
    refine ⟨v, t, h, h.inside (by decide), ?_⟩
    cases hcharacter
    rfl
  · obtain ⟨start, answer, -, hanswer, hrun⟩ := hsearch "" infinity
    exact ⟨start, answer, hanswer, hrun _⟩

end ScriptEngine
