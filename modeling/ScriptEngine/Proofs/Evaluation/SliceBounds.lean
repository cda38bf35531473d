import ScriptEngine.Proofs.Evaluation.StringUnits
import ScriptEngine.Proofs.Numeric.DoubleArithmetic
import ScriptEngine.Proofs.Numeric.ReadingBack

/-!
# Bounds of slices

A position is worked out in doubles: the length is added to a negative number, the sum is rounded,
kept within the sequence and cast to a word. Below `2 ^ 53` nothing of this loses a unit, so the
bounds of a slice are in range for every double. The elements and the units are read between bounds
that are checked, and no check fails, whatever the arguments run while they are turned into numbers:
the sequence is read before that and is not looked at again.
-/

namespace ScriptEngine

open Numeric Text

namespace Native

section Positions

variable {x : Float} {v : ℚ} {length : ℕ}

def doublePosition (x : Float) (length : ℕ) : ℕ :=
  if isNaN x then 0
  else
    let last := Float.ofNat length
    let index :=
      if x < 0 then
        if last + truncated x < 0 then 0 else last + truncated x
      else
        if truncated x < last then truncated x else last
    index.toUInt64.toNat

theorem relativeIndex_le (x : Float) (length : ℕ) : relativeIndex x length ≤ length := by
  cases hx : decode x with
  | nan =>
    rw [relativeIndex_of_isNaN (isNaN_iff.2 hx)]
    exact Nat.zero_le length
  | infinite negative =>
    unfold relativeIndex
    rw [hx]
    cases negative with
    | false => exact le_refl length
    | true => exact Nat.zero_le length
  | finite negative m e =>
    have hvalue := value?_of_decode hx
    generalize (if negative then -1 else 1) * ((m : ℚ) * 2 ^ e) = v at hvalue
    rw [relativeIndex_of_value hvalue]
    split
    next hneg =>
      have hpart := towardZero_nonpos hneg
      omega
    next => exact min_le_right _ _

theorem isNaN_of_value (h : value? x = some v) : isNaN x = false := by
  obtain ⟨negative, m, e, hx, -⟩ := value?_eq_some h
  unfold isNaN
  rw [hx]

theorem not_lt_zero_of_zero_cast {y : Float} (h : y.toUInt64 = 0) :
    (if y < 0 then 0 else y).toUInt64.toNat = 0 := by
  split
  · rfl
  · rw [h]
    rfl

/-- From the end. The sum with the length may be rounded when it is negative, but its sign says that
the position is before the first one. -/
theorem toNat_fromEnd (h : value? x = some v) (hneg : v < 0) (hlength : length < 2 ^ 53) :
    (if Float.ofNat length + truncated x < 0 then 0
      else Float.ofNat length + truncated x).toUInt64.toNat = (length + towardZero v).toNat := by
  have hlast := value?_ofNat hlength
  have htruncated := value?_truncated h
  have hpart := towardZero_nonpos hneg
  by_cases hsum : (length : ℤ) + towardZero v < 0
  · have hzero := toUInt64_add_of_neg hlast htruncated (by exact_mod_cast hsum)
    rw [not_lt_zero_of_zero_cast hzero, Int.toNat_of_nonpos hsum.le]
  · have hexact := value?_add hlast htruncated (n := length + towardZero v) (by push_cast; rfl)
      (by rw [abs_lt]; omega)
    have hnonneg : ¬Float.ofNat length + truncated x < 0 := by
      rw [lt_zero_iff hexact]
      exact_mod_cast hsum
    rw [if_neg hnonneg, toNat_toUInt64 hexact, towardZero_intCast]
    omega

theorem toNat_fromStart (h : value? x = some v) (hnonneg : 0 ≤ v) (hlength : length < 2 ^ 53) :
    (if truncated x < Float.ofNat length then truncated x else Float.ofNat length).toUInt64.toNat =
      min (towardZero v).toNat length := by
  have hlast := value?_ofNat hlength
  have htruncated := value?_truncated h
  have hpart : 0 ≤ towardZero v := by
    unfold towardZero
    rw [if_pos hnonneg]
    exact Int.floor_nonneg.2 hnonneg
  have hcompare : truncated x < Float.ofNat length ↔ towardZero v < length := by
    rw [lt_iff_value htruncated hlast]
    exact_mod_cast Iff.rfl
  simp only [hcompare]
  split
  next hlt =>
    rw [toNat_toUInt64 htruncated, towardZero_intCast]
    omega
  next hle =>
    rw [toNat_toUInt64 hlast, towardZero_natCast, Int.toNat_natCast]
    omega

theorem doublePosition_of_value (h : value? x = some v) (hlength : length < 2 ^ 53) :
    doublePosition x length = relativeIndex x length := by
  unfold doublePosition
  rw [isNaN_of_value h, if_neg Bool.false_ne_true, relativeIndex_of_value h]
  dsimp only
  simp only [lt_zero_iff h]
  split
  next hneg => exact toNat_fromEnd h hneg hlength
  next hneg => exact toNat_fromStart h (not_lt.1 hneg) hlength

theorem doublePosition_infinity (hlength : length < 2 ^ 53) :
    doublePosition infinity length = length := by
  have hinfinite : decode infinity = .infinite false := by decide
  have hlast := value?_ofNat hlength
  unfold doublePosition
  rw [truncated_of_infinite hinfinite, if_neg (by decide : ¬isNaN infinity = true)]
  dsimp only
  rw [if_neg (by decide : ¬infinity < 0), if_neg (not_infinity_lt hlast), toNat_toUInt64 hlast,
    towardZero_natCast]
  omega

theorem doublePosition_negInfinity (hlength : length < 2 ^ 53) :
    doublePosition negInfinity length = 0 := by
  have hinfinite : decode negInfinity = .infinite true := by decide
  have hlast := value?_ofNat hlength
  unfold doublePosition
  rw [truncated_of_infinite hinfinite, if_neg (by decide : ¬isNaN negInfinity = true)]
  dsimp only
  rw [if_pos (by decide : negInfinity < 0)]
  exact not_lt_zero_of_zero_cast (toUInt64_add_negInfinity hlast)

theorem doublePosition_eq (x : Float) (hlength : length < 2 ^ 53) :
    doublePosition x length = relativeIndex x length := by
  cases hx : decode x with
  | nan =>
    have hnan := isNaN_iff.2 hx
    rw [relativeIndex_of_isNaN hnan]
    unfold doublePosition
    rw [if_pos hnan]
  | infinite negative =>
    have hposition : relativeIndex x length = if negative then 0 else length := by
      unfold relativeIndex
      rw [hx]
    rw [hposition, eq_of_decode_infinite hx]
    cases negative with
    | false => exact doublePosition_infinity hlength
    | true => exact doublePosition_negInfinity hlength
  | finite negative m e => exact doublePosition_of_value (value?_of_decode hx) hlength

end Positions

section Bounds

variable (invoke : Invoke)

def numberArg (v : Value) : Eval (Option Float) := do
  match v with
  | .undefined => return none
  | v => return some (← Eval.toNumber invoke v)

/-- The bounds that two numbers ask for in a sequence of a length. A bound that no number is given
for is the end it stands at. -/
def boundsOf (position : Float → ℕ → ℕ) (length : ℕ) (first last : Option Float) : ℕ × ℕ :=
  let start := first.elim 0 fun x => position x length
  let stop := last.elim length fun x => position x length
  (start, max stop start)

def doubleBounds (args : List Value) (length : ℕ) : Eval (ℕ × ℕ) := do
  let first ← numberArg invoke (arg args 0)
  let last ← numberArg invoke (arg args 1)
  return boundsOf doublePosition length first last

def InRange (length : ℕ) (bounds : ℕ × ℕ) : Prop :=
  bounds.1 ≤ bounds.2 ∧ bounds.2 ≤ length

variable {length : ℕ}

theorem inRange_boundsOf (length : ℕ) (first last : Option Float) :
    InRange length (boundsOf relativeIndex length first last) := by
  have hstart : (first.elim 0 fun x => relativeIndex x length) ≤ length := by
    cases first with
    | none => exact Nat.zero_le length
    | some x => exact relativeIndex_le x length
  have hstop : (last.elim length fun x => relativeIndex x length) ≤ length := by
    cases last with
    | none => exact le_refl length
    | some x => exact relativeIndex_le x length
  exact ⟨le_max_right _ _, max_le hstop hstart⟩

theorem boundsOf_doublePosition (hlength : length < 2 ^ 53) (first last : Option Float) :
    boundsOf doublePosition length first last = boundsOf relativeIndex length first last := by
  unfold boundsOf
  simp only [doublePosition_eq _ hlength]

theorem positionArg_eq (v : Value) (length missing : ℕ) :
    positionArg invoke v length missing =
      (fun x? : Option Float => x?.elim missing fun x => relativeIndex x length) <$>
        numberArg invoke v := by
  unfold positionArg numberArg
  cases v with
  | undefined => rfl
  | _ => simp only [map_bind, map_pure, Option.elim_some]

/-- The bounds of a slice depend on the two numbers alone: both arguments are turned into numbers,
and whatever they run, the length is the one that was read before. -/
theorem sliceBounds_eq (args : List Value) (length : ℕ) :
    sliceBounds invoke args length = do
      let first ← numberArg invoke (arg args 0)
      let last ← numberArg invoke (arg args 1)
      return boundsOf relativeIndex length first last := by
  unfold sliceBounds
  simp only [positionArg_eq, bind_map_left]
  rfl

theorem doubleBounds_eq (args : List Value) (hlength : length < 2 ^ 53) :
    doubleBounds invoke args length = sliceBounds invoke args length := by
  rw [sliceBounds_eq]
  unfold doubleBounds
  simp only [boundsOf_doublePosition hlength]

end Bounds

section Accesses

variable (invoke : Invoke)

def itemsBetween? (items : Array Value) (start stop : ℕ) : Option (Array Value) :=
  if start ≤ stop ∧ stop ≤ items.size then some (items.extract start stop) else none

/-- The unit at an index, or no unit where the index is negative or, as a word, not below the
length; none where the unit is read outside the sequence. -/
def unitsAt? (us : List Unit16) (x : Float) : Option (List Unit16) :=
  let index := truncated x
  if 0 ≤ index ∧ index.toUInt64.toNat < us.length then
    unitsBetween? us index.toUInt64.toNat (index.toUInt64.toNat + 1)
  else some []

/-- What a native function answers when its positions are worked out in doubles and every part of a
sequence that it reads between them is checked; none where that part is out of range. -/
def checkedRun : Native → Value → List Value → Eval (Option Value)
  | .arraySlice, receiver, args => do
    let (_, items) ← thisArray receiver "slice"
    let (start, stop) ← doubleBounds invoke args items.size
    match itemsBetween? items start stop with
    | some part => some <$> Eval.newArray part
    | none => return none
  | .stringSlice, receiver, args => do
    let us := units (← Eval.toText invoke receiver)
    let (start, stop) ← doubleBounds invoke args us.length
    return (unitsBetween? us start stop).map fun part => .string (ofUnits part)
  | .stringCharAt, receiver, args => do
    let us := units (← Eval.toText invoke receiver)
    let index ← numberArg invoke (arg args 0)
    return (unitsAt? us (index.getD 0)).map fun part => .string (ofUnits part)
  | native, receiver, args => some <$> run invoke native receiver args

/-- A receiver with fewer than `2 ^ 53` elements, or units of its text. -/
structure HasDoubleLength (receiver : Value) (m : Machine) : Prop where
  elements : ∀ id items, receiver = .object id → (m.heap.object id).elements? = some items →
    items.size < 2 ^ 53
  text : ∀ s m', Eval.toText invoke receiver m = .ok s m' → (units s).length < 2 ^ 53

theorem bind_congr_at {α β : Type} {x : Eval α} {f g : α → Eval β} {m : Machine}
    (h : ∀ a m', x m = .ok a m' → f a m' = g a m') : (x >>= f) m = (x >>= g) m := by
  simp only [bind, EStateM.bind]
  cases hx : x m with
  | ok a m' => exact h a m' hx
  | error e m' => rfl

theorem size_of_thisArray {receiver : Value} {name : String} {id : ObjectId} {items : Array Value}
    {m m' : Machine} (hshort : HasDoubleLength invoke receiver m)
    (h : thisArray receiver name m = .ok (id, items) m') : items.size < 2 ^ 53 := by
  have hthrow {message : String} {p : ObjectId × Array Value} {m' : Machine} :
      Eval.throwNamed .typeError message m ≠ .ok p m' :=
    fun h => (Eval.yields_throwNamed (Q := fun _ => False) _ _ m p m' h).elim
  cases receiver with
  | object o =>
    cases hitems : (m.heap.object o).elements? with
    | some found =>
      rw [thisArray_of_elements hitems] at h
      cases h
      exact hshort.elements _ _ rfl hitems
    | none =>
      have hread : Eval.reading (fun m => (m.heap.object o).elements?) m = .ok none m := by
        rw [Eval.reading, hitems]
      exact absurd ((Eval.bind_of_ok hread).symm.trans h) hthrow
  | _ => exact absurd h hthrow

variable {us : List Unit16} {x : Float} {v : ℚ}

theorem unitsBetween?_one {i : ℕ} (hi : i < us.length) :
    unitsBetween? us i (i + 1) = some us[i]?.toList := by
  unfold unitsBetween?
  rw [if_pos ⟨Nat.le_succ i, hi⟩, Nat.add_sub_cancel_left, List.getElem?_eq_getElem hi,
    List.drop_eq_getElem_cons hi]
  rfl

theorem unitsAt?_of_value (h : value? x = some v) (hlength : us.length < 2 ^ 53) :
    unitsAt? us x = some (if 0 ≤ towardZero v then us[(towardZero v).toNat]?.toList else []) := by
  have htruncated := value?_truncated h
  have hnonneg : 0 ≤ truncated x ↔ 0 ≤ towardZero v := by
    rw [le_iff_value value?_zero htruncated]
    exact_mod_cast Iff.rfl
  have hword : (truncated x).toUInt64.toNat = min (towardZero v).toNat (2 ^ 64 - 1) := by
    rw [toNat_toUInt64 htruncated, towardZero_intCast]
  unfold unitsAt?
  simp only [hnonneg, hword]
  by_cases hv : 0 ≤ towardZero v
  · rw [if_pos hv]
    by_cases hinside : (towardZero v).toNat < us.length
    · have hindex : min (towardZero v).toNat (2 ^ 64 - 1) = (towardZero v).toNat := by omega
      rw [hindex, if_pos ⟨hv, hinside⟩, unitsBetween?_one hinside]
    · rw [if_neg (by omega), List.getElem?_eq_none (not_lt.1 hinside)]
      rfl
  · rw [if_neg hv, if_neg (fun h => hv h.1)]

theorem not_zero_le_of_isNaN (h : isNaN x = true) : ¬0 ≤ x := by
  have hnan : x.toModel.unpack = .notANumber := by
    by_contra hnumber
    rw [isNaN_of_isNumber hnumber] at h
    cases h
  have hle : 0 ≤ x ↔
      Float.Model.UnpackedFloat.le (0 : Float).toModel.unpack x.toModel.unpack = true := by
    change decide ((0 : Float).toModel ≤ x.toModel) = true ↔ _
    exact decide_eq_true_iff
  rw [hle, hnan]
  decide

theorem unitsAt?_of_value_eq_none (h : value? x = none) (hlength : us.length < 2 ^ 53) :
    unitsAt? us x = some [] := by
  unfold unitsAt?
  apply if_neg
  rintro ⟨hzero, hinside⟩
  cases hx : decode x with
  | nan =>
    rw [truncated_of_nan hx] at hzero
    exact not_zero_le_of_isNaN (isNaN_iff.2 hx) hzero
  | infinite negative =>
    rw [truncated_of_infinite hx, eq_of_decode_infinite hx] at hzero hinside
    cases negative with
    | false =>
      have hword : infinity.toUInt64.toNat = 2 ^ 64 - 1 := by decide
      change infinity.toUInt64.toNat < us.length at hinside
      omega
    | true =>
      have hnegative : ¬0 ≤ negInfinity := by decide
      exact hnegative hzero
  | finite negative m e =>
    rw [value?_of_decode hx] at h
    cases h

theorem unitsAt?_units (s : String) (x : Float) (hlength : (units s).length < 2 ^ 53) :
    (unitsAt? (units s) x).map ofUnits = some (unitAt s x) := by
  unfold unitAt
  rw [truncate?_eq]
  cases h : value? x with
  | none =>
    rw [unitsAt?_of_value_eq_none h hlength]
    rfl
  | some v =>
    rw [unitsAt?_of_value h hlength]
    simp only [Option.map_some, unitAt?_eq]
    split
    · rfl
    · rfl

variable (args : List Value) {receiver : Value} {m : Machine}

theorem checkedRun_arraySlice (h : HasDoubleLength invoke receiver m) :
    checkedRun invoke .arraySlice receiver args m =
      (some <$> run invoke .arraySlice receiver args) m := by
  have hpart {items : Array Value} {bounds : ℕ × ℕ} (hbounds : InRange items.size bounds) :
      itemsBetween? items bounds.1 bounds.2 = some (items.extract bounds.1 bounds.2) :=
    if_pos hbounds
  simp only [checkedRun, run, map_bind]
  apply bind_congr_at
  rintro ⟨id, items⟩ m' hitems
  simp only [doubleBounds_eq invoke args (size_of_thisArray invoke h hitems), sliceBounds_eq,
    bind_assoc, pure_bind, hpart (inRange_boundsOf _ _ _)]

theorem checkedRun_stringSlice (h : HasDoubleLength invoke receiver m) :
    checkedRun invoke .stringSlice receiver args m =
      (some <$> run invoke .stringSlice receiver args) m := by
  have hpart {us : List Unit16} {bounds : ℕ × ℕ} (hbounds : InRange us.length bounds) :
      unitsBetween? us bounds.1 bounds.2 = some ((us.drop bounds.1).take (bounds.2 - bounds.1)) :=
    if_pos hbounds
  simp only [checkedRun, run, map_bind]
  apply bind_congr_at
  intro s m' hs
  simp only [doubleBounds_eq invoke args (h.text s m' hs), sliceBounds_eq, bind_assoc, pure_bind,
    map_pure, hpart (inRange_boundsOf _ _ _), Option.map_some]

theorem checkedRun_stringCharAt (h : HasDoubleLength invoke receiver m) :
    checkedRun invoke .stringCharAt receiver args m =
      (some <$> run invoke .stringCharAt receiver args) m := by
  have hunit {s : String} {x : Float} (hlength : (units s).length < 2 ^ 53) :
      (unitsAt? (units s) x).map (fun part => Value.string (ofUnits part)) =
        some (.string (unitAt s x)) := by
    have hmapped := congrArg (Option.map Value.string) (unitsAt?_units s x hlength)
    rwa [Option.map_map] at hmapped
  simp only [checkedRun, run, map_bind]
  apply bind_congr_at
  intro s m' hs
  simp only [hunit (h.text s m' hs)]
  unfold numberArg
  cases arg args 0 with
  | undefined => rfl
  | _ => simp only [bind_assoc, pure_bind, map_bind, map_pure, Option.getD_some]

theorem checkedRun_eq (h : HasDoubleLength invoke receiver m) (native : Native) :
    checkedRun invoke native receiver args m = (some <$> run invoke native receiver args) m := by
  cases native with
  | arraySlice => exact checkedRun_arraySlice invoke args h
  | stringSlice => exact checkedRun_stringSlice invoke args h
  | stringCharAt => exact checkedRun_stringCharAt invoke args h
  | _ => rfl

end Accesses

/-- Slices stay in range. In a sequence of fewer than `2 ^ 53` units the position of every double is
the same in doubles as it is exactly, and it is not behind the end. The bounds of a slice are made
of two such positions and lie within the length that was read before, whatever turning the arguments
into numbers runs. So no part of an array or a string that is read between them is out of range. -/
theorem slices_stay_in_range (invoke : Invoke) :
    (∀ (x : Float) (length : ℕ), length < 2 ^ 53 →
      doublePosition x length = relativeIndex x length ∧ doublePosition x length ≤ length) ∧
    (∀ (args : List Value) (length : ℕ), length < 2 ^ 53 →
      doubleBounds invoke args length = sliceBounds invoke args length ∧
      (sliceBounds invoke args length = do
        let first ← numberArg invoke (arg args 0)
        let last ← numberArg invoke (arg args 1)
        return boundsOf relativeIndex length first last) ∧
      ∀ first last, InRange length (boundsOf relativeIndex length first last)) ∧
    ∀ (native : Native) (receiver : Value) (args : List Value) (m : Machine),
      HasDoubleLength invoke receiver m →
      checkedRun invoke native receiver args m = (some <$> run invoke native receiver args) m := by
  refine ⟨fun x length hlength => ?_, fun args length hlength => ?_, ?_⟩
  · have hposition := doublePosition_eq x hlength
    exact ⟨hposition, hposition ▸ relativeIndex_le x length⟩
  · exact ⟨doubleBounds_eq invoke args hlength, sliceBounds_eq invoke args length,
      inRange_boundsOf length⟩
  · intro native receiver args m h
    exact checkedRun_eq invoke args h native

/-- An array of two elements, and an object with a function for its `toString`. -/
def shrinking : Machine :=
  { Machine.bare none with
    heap := #[.bare (.array #[.string "a", .string "b"]) none,
      (Object.bare .plain none).define "toString" (.object 2),
      .bare (.native "pop" .arrayPop) none] }

def shrink : Invoke := fun _ _ _ _ => do
  modify fun m => { m with heap := m.heap.modify 0 Object.dropLast }
  return .bool true

/-- A fraction before the start of the last element, and a slice that keeps what its argument takes
from the array. -/
theorem slices_stay_in_range_shrinking :
    (doublePosition (-1.5) 2 = relativeIndex (-1.5) 2 ∧ doublePosition (-1.5) 2 ≤ 2) ∧
    doubleBounds shrink [.object 1] 2 = sliceBounds shrink [.object 1] 2 ∧
    HasDoubleLength shrink (.object 0) shrinking ∧ ∃ m,
      checkedRun shrink .arraySlice (.object 0) [.object 1] shrinking = .ok (some (.object 3)) m ∧
      (m.heap.object 0).elements? = some #[.string "a"] ∧
      (m.heap.object 3).elements? = some #[.string "b"] := by
  obtain ⟨hposition, hbounds, hchecked⟩ := slices_stay_in_range shrink
  have hshort : HasDoubleLength shrink (.object 0) shrinking := by
    constructor
    · rintro id items hid hitems
      cases hid
      cases hitems
      decide
    · intro s m' h
      cases h
  refine ⟨hposition (-1.5) 2 (by norm_num), (hbounds [.object 1] 2 (by norm_num)).1, hshort, ?_⟩
  rw [hchecked .arraySlice (.object 0) [.object 1] shrinking hshort]
  exact ⟨_, rfl, rfl, rfl⟩

end Native

end ScriptEngine
