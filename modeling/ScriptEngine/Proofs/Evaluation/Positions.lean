import ScriptEngine.Evaluation.Natives
import ScriptEngine.Prelude
import ScriptEngine.Proofs.Numeric.ExactValues

/-!
# Positions as numbers

A number that is given as a position counts by its integer part, in slices of arrays and strings, as
the index of a unit and as the place where a search starts. There are two exceptions. A slice looks
at the sign before the fraction is dropped, so a number between minus one and zero counts from the
end and means the end itself. And what is not a number is no index of a unit, while it counts as
zero everywhere else.
-/

namespace ScriptEngine

namespace Numeric

/-- `t` is `x` without its fraction: what is not a number counts as zero, and infinities stay. -/
inductive WithoutFraction (x t : Float) : Prop where
  | nan (hx : isNaN x = true) (ht : value? t = some 0)
  | infinite {negative : Bool} (hx : decode x = .infinite negative) (ht : t = x)
  | finite {v : ℚ} (hx : value? x = some v) (ht : value? t = some (towardZero v : ℚ))

theorem exists_integer_of_nonneg (negative : Bool) (m : ℕ) {e : ℤ} (he : 0 ≤ e) :
    ∃ n : ℤ, (if negative then -1 else 1) * ((m : ℚ) * 2 ^ e) = n := by
  obtain ⟨k, rfl⟩ := Int.eq_ofNat_of_zero_le he
  refine ⟨(if negative then -1 else 1) * (m * 2 ^ k), ?_⟩
  push_cast
  rw [zpow_natCast]

theorem abs_integerPart_le (negative : Bool) (m : ℕ) {e : ℤ} (he : e ≤ 0) :
    |integerPart negative m e| ≤ m := by
  have hle : (m <<< e.toNat) >>> (-e).toNat ≤ m := by
    rw [Int.toNat_of_nonpos he]
    exact Nat.shiftRight_le m _
  unfold integerPart
  dsimp only
  split
  · rw [abs_neg, Int.ofNat_eq_natCast, Nat.abs_cast]
    exact_mod_cast hle
  · rw [Int.ofNat_eq_natCast, Nat.abs_cast]
    exact_mod_cast hle

theorem exists_withoutFraction (x : Float) : ∃ t, WithoutFraction x t := by
  cases h : decode x with
  | nan =>
    have hx := isNaN_iff.2 h
    have ht : value? (Float.ofNat 0) = some ((0 : ℕ) : ℚ) := value?_ofNat (by norm_num)
    exact ⟨Float.ofNat 0, .nan hx (by exact_mod_cast ht)⟩
  | infinite negative => exact ⟨x, .infinite h rfl⟩
  | finite negative m e =>
    have hx := value?_of_decode h
    rcases le_total 0 e with he | he
    · obtain ⟨n, hn⟩ := exists_integer_of_nonneg negative m he
      rw [hn] at hx
      refine ⟨x, .finite hx ?_⟩
      rw [hx, towardZero_intCast]
    · obtain ⟨hm, -⟩ := of_decodeBits_finite h
      refine ⟨Float.ofInt (integerPart negative m e), .finite hx ?_⟩
      rw [← integerPart_eq]
      apply value?_ofInt
      have hle := abs_integerPart_le negative m he
      omega

theorem signed_neg_iff (negative : Bool) (m : ℕ) (e : ℤ) :
    (if negative then -1 else 1) * ((m : ℚ) * 2 ^ e) < 0 ↔ negative = true ∧ m ≠ 0 := by
  have hpow : (0 : ℚ) < 2 ^ e := by positivity
  have hnonneg : (0 : ℚ) ≤ m * 2 ^ e := by positivity
  cases negative with
  | false => simpa using hnonneg
  | true =>
    by_cases hm : m = 0
    · simp [hm]
    · have hpos : (0 : ℚ) < m * 2 ^ e := by positivity
      simpa [hm] using hpos

theorem towardZero_nonneg {v : ℚ} (h : 0 ≤ v) : 0 ≤ towardZero v := by
  unfold towardZero
  rw [if_pos h]
  exact Int.floor_nonneg.2 h

theorem towardZero_nonpos {v : ℚ} (h : v < 0) : towardZero v ≤ 0 := by
  unfold towardZero
  rw [if_neg (not_le.2 h), Int.ceil_le]
  exact_mod_cast h.le

theorem towardZero_neg_of_le {v : ℚ} (h : v ≤ -1) : towardZero v < 0 := by
  unfold towardZero
  rw [if_neg (by linarith)]
  have hle : ⌈v⌉ ≤ -1 := Int.ceil_le.2 (by exact_mod_cast h)
  omega

theorem towardZero_of_above {v : ℚ} (hlow : -1 < v) (hhigh : v < 0) : towardZero v = 0 := by
  have hle := towardZero_nonpos hhigh
  unfold towardZero at hle ⊢
  rw [if_neg (not_le.2 hhigh)] at hle ⊢
  have hlt : -1 < ⌈v⌉ := Int.lt_ceil.2 (by exact_mod_cast hlow)
  omega

theorem lt_zero_iff {x : Float} {v : ℚ} (h : value? x = some v) : x < 0 ↔ v < 0 := by
  obtain ⟨negative, m, e, hx, rfl⟩ := value?_eq_some h
  have hzero : (0 : Float).toModel.unpack = .zero .positive := rfl
  have hlt : x < 0 ↔ x.toModel.unpack.lt (0 : Float).toModel.unpack = true := by
    change decide (x.toModel < (0 : Float).toModel) = true ↔ _
    exact decide_eq_true_iff
  rw [signed_neg_iff, hlt]
  by_cases hm : m = 0
  · subst hm
    obtain ⟨-, -, -, hfull, -⟩ := of_decodeBits_finite hx
    obtain rfl : e = -1074 := hfull.resolve_right (by norm_num)
    rw [← pack_of_decode hx]
    cases negative with
    | false => decide
    | true => decide
  · rw [hzero, unpack_of_decode hx (Nat.pos_of_ne_zero hm)]
    cases negative with
    | false => exact iff_of_false Bool.false_ne_true fun hboth => Bool.false_ne_true hboth.1
    | true => exact iff_of_true rfl ⟨rfl, hm⟩

end Numeric

open Numeric

namespace Native

theorem relativeIndex_of_value {x : Float} {v : ℚ} (h : value? x = some v) (length : ℕ) :
    relativeIndex x length =
      if v < 0 then (length + towardZero v).toNat else min (towardZero v).toNat length := by
  obtain ⟨negative, m, e, hx, rfl⟩ := value?_eq_some h
  unfold relativeIndex
  simp only [hx, integerPart_eq, signed_neg_iff, Int.ofNat_eq_natCast]

theorem relativeIndex_of_isNaN {x : Float} (h : isNaN x = true) (length : ℕ) :
    relativeIndex x length = 0 := by
  unfold relativeIndex
  rw [isNaN_iff.1 h]

/-- The position that an integer or an infinity asks for in a sequence of a length. -/
inductive StartsAt (t : Float) (length : ℕ) (p : ℕ) : Prop where
  | integer {n : ℤ} (ht : value? t = some (n : ℚ))
      (hp : (p : ℤ) = if n < 0 then max (length + n) 0 else min n length)
  | infinite {negative : Bool} (ht : decode t = .infinite negative)
      (hp : p = if negative then 0 else length)

def AboveMinusOne (x : Float) : Prop :=
  ∃ v, value? x = some v ∧ -1 < v ∧ v < 0

theorem startsAt_relativeIndex {x t : Float} (h : WithoutFraction x t) (length : ℕ) :
    StartsAt t length (relativeIndex t length) := by
  have hinteger : ∀ n : ℤ, value? t = some (n : ℚ) →
    StartsAt t length (relativeIndex t length) := by
    intro n ht
    refine .integer ht ?_
    rw [relativeIndex_of_value ht, towardZero_intCast]
    simp only [Int.cast_lt_zero]
    split <;> omega
  cases h with
  | nan hx ht => exact hinteger 0 (by exact_mod_cast ht)
  | infinite hx ht =>
    subst ht
    refine .infinite hx ?_
    unfold relativeIndex
    rw [hx]
  | finite hx ht => exact hinteger _ ht

theorem StartsAt.le {t : Float} {length p : ℕ} (h : StartsAt t length p) : p ≤ length := by
  cases h with
  | integer ht hp => split at hp <;> omega
  | infinite ht hp => split at hp <;> omega

theorem relativeIndex_withoutFraction {x t : Float} (h : WithoutFraction x t)
    (hx : ¬ AboveMinusOne x) (length : ℕ) : relativeIndex x length = relativeIndex t length := by
  cases h with
  | nan hnan ht =>
    rw [relativeIndex_of_isNaN hnan, relativeIndex_of_value ht]
    simp [towardZero]
  | infinite hx ht => rw [ht]
  | @finite v hv ht =>
    rw [relativeIndex_of_value hv, relativeIndex_of_value ht, towardZero_intCast]
    simp only [Int.cast_lt_zero]
    by_cases hneg : v < 0
    · have hle : v ≤ -1 := by
        by_contra hlt
        exact hx ⟨v, hv, not_le.1 hlt, hneg⟩
      rw [if_pos hneg, if_pos (towardZero_neg_of_le hle)]
    · have hnonneg := towardZero_nonneg (not_lt.1 hneg)
      rw [if_neg hneg, if_neg (by omega)]

theorem relativeIndex_of_above {x : Float} (h : AboveMinusOne x) (length : ℕ) :
    relativeIndex x length = relativeIndex infinity length := by
  obtain ⟨v, hv, hlow, hhigh⟩ := h
  have hinfinite : decode infinity = .infinite false := by decide
  rw [relativeIndex_of_value hv, if_pos hhigh, towardZero_of_above hlow hhigh]
  unfold relativeIndex
  rw [hinfinite]
  simp

theorem searchStart_withoutFraction {x t : Float} (h : WithoutFraction x t) (length : ℕ) :
    (if x < 0 then 0 else relativeIndex x length) =
      if t < 0 then 0 else relativeIndex t length := by
  cases h with
  | nan hnan ht =>
    have hstart := relativeIndex_of_value ht length
    rw [relativeIndex_of_isNaN hnan, hstart]
    simp [towardZero]
  | infinite hx ht => rw [ht]
  | @finite v hv ht =>
    simp only [lt_zero_iff hv, lt_zero_iff ht, relativeIndex_of_value hv, relativeIndex_of_value ht,
      towardZero_intCast, Int.cast_lt_zero]
    by_cases hneg : v < 0
    · have hnonpos := towardZero_nonpos hneg
      rw [if_pos hneg]
      split <;> omega
    · have hnonneg := towardZero_nonneg (not_lt.1 hneg)
      rw [if_neg hneg, if_neg hneg, if_neg (by omega), if_neg (by omega)]

theorem unitAt_withoutFraction {x t : Float} (h : WithoutFraction x t) (hx : isNaN x = false)
    (s : String) : unitAt s x = unitAt s t := by
  cases h with
  | nan hnan ht => rw [hx] at hnan; cases hnan
  | infinite hinfinite ht => rw [ht]
  | finite hv ht =>
    unfold unitAt
    rw [truncate?_eq_some hv, truncate?_eq_some ht, towardZero_intCast]

theorem unitAt_of_isNaN {x : Float} (h : isNaN x = true) (s : String) : unitAt s x = "" := by
  unfold unitAt truncate?
  rw [isNaN_iff.1 h]

section Methods

variable (invoke : Invoke) (receiver : Value)

/-- A slice cannot tell two numbers from each other, neither as its start nor as its end. -/
def SlicesAlike (x y : Float) : Prop :=
  ∀ method ∈ [Native.arraySlice, .stringSlice], ∀ rest,
    run invoke method receiver (.number x :: rest) =
      run invoke method receiver (.number y :: rest) ∧
    ∀ first, run invoke method receiver (first :: .number x :: rest) =
      run invoke method receiver (first :: .number y :: rest)

theorem run_slice_congr {method : Native} (hmethod : method ∈ [Native.arraySlice, .stringSlice])
    {args args' : List Value}
    (h : ∀ length, sliceBounds invoke args length = sliceBounds invoke args' length) :
    run invoke method receiver args = run invoke method receiver args' := by
  rw [List.mem_pair] at hmethod
  rcases hmethod with rfl | rfl <;> simp only [run, h]

theorem positionArg_number (x : Float) (length missing : ℕ) :
    positionArg invoke (.number x) length missing = pure (relativeIndex x length) :=
  rfl

theorem slicesAlike_of_relativeIndex {x y : Float}
    (h : ∀ length, relativeIndex x length = relativeIndex y length) :
    SlicesAlike invoke receiver x y := by
  intro method hmethod rest
  refine ⟨run_slice_congr invoke receiver hmethod ?_, ?_⟩
  · intro length
    simp only [sliceBounds, arg, List.getD_cons_zero, List.getD_cons_succ, positionArg_number, h]
  · intro first
    apply run_slice_congr invoke receiver hmethod
    intro length
    simp only [sliceBounds, arg, List.getD_cons_zero, List.getD_cons_succ, positionArg_number, h]

theorem run_charAt (x : Float) (rest : List Value) :
    run invoke .stringCharAt receiver (.number x :: rest) =
      (fun s => Value.string (unitAt s x)) <$> Eval.toText invoke receiver :=
  rfl

theorem run_indexOf_congr {x y : Float}
    (h : ∀ length, (if x < 0 then 0 else relativeIndex x length) =
      if y < 0 then 0 else relativeIndex y length) (needle : Value) (rest : List Value) :
    run invoke .stringIndexOf receiver (needle :: .number x :: rest) =
      run invoke .stringIndexOf receiver (needle :: .number y :: rest) := by
  have hnumber : ∀ z, Eval.toNumber invoke (.number z) = pure z := fun _ => rfl
  simp only [run, arg, List.getD_cons_zero, List.getD_cons_succ, hnumber, pure_bind, h]

theorem run_stringSlice {t : Float} (s : String) (m : Machine)
    (h : relativeIndex t (Text.units s).length ≤ (Text.units s).length) :
    run invoke .stringSlice (.string s) [.number t] m =
      .ok (.string (Text.ofUnits ((Text.units s).drop (relativeIndex t (Text.units s).length))))
        m := by
  have htake : ((Text.units s).drop (relativeIndex t (Text.units s).length)).take
      (max (Text.units s).length (relativeIndex t (Text.units s).length) -
        relativeIndex t (Text.units s).length) =
      (Text.units s).drop (relativeIndex t (Text.units s).length) := by
    rw [max_eq_left h]
    apply List.take_of_length_le
    rw [List.length_drop]
  rw [← htake]
  rfl

theorem run_arraySlice {t : Float} {id : ObjectId} {items : Array Value} {m : Machine}
    (hitems : (m.heap.object id).elements? = some items)
    (h : relativeIndex t items.size ≤ items.size) :
    run invoke .arraySlice (.object id) [.number t] m =
      Eval.newArray (items.extract (relativeIndex t items.size) items.size) m := by
  refine (Eval.bind_of_ok (thisArray_of_elements hitems "slice")).trans ?_
  change Eval.newArray (items.extract (relativeIndex t items.size)
    (max items.size (relativeIndex t items.size))) m = _
  rw [max_eq_left h]

end Methods

/-- Positions count by their integer part, apart from the two exceptions: a number between minus one
and zero means the end in a slice, and what is not a number is no index of a unit. -/
theorem positions_count_by_integer_part (x : Float) :
    (∃ t, WithoutFraction x t) ∧
    ∀ (invoke : Invoke) (t : Float), WithoutFraction x t →
      (∀ receiver,
        (¬ AboveMinusOne x → SlicesAlike invoke receiver x t) ∧
        (AboveMinusOne x → SlicesAlike invoke receiver x infinity) ∧
        (∀ rest,
          (isNaN x = false → run invoke .stringCharAt receiver (.number x :: rest) =
            run invoke .stringCharAt receiver (.number t :: rest)) ∧
          (isNaN x = true → run invoke .stringCharAt receiver (.number x :: rest) =
            (fun _ => Value.string "") <$> Eval.toText invoke receiver)) ∧
        ∀ needle rest, run invoke .stringIndexOf receiver (needle :: .number x :: rest) =
          run invoke .stringIndexOf receiver (needle :: .number t :: rest)) ∧
      ∀ m : Machine,
        (∀ s, ∃ p, StartsAt t (Text.units s).length p ∧
          run invoke .stringSlice (.string s) [.number t] m =
            .ok (.string (Text.ofUnits ((Text.units s).drop p))) m) ∧
        ∀ id items, (m.heap.object id).elements? = some items →
          ∃ p, StartsAt t items.size p ∧
            run invoke .arraySlice (.object id) [.number t] m =
              Eval.newArray (items.extract p items.size) m := by
  refine ⟨exists_withoutFraction x, ?_⟩
  intro invoke t h
  refine ⟨fun receiver => ⟨?_, ?_, ?_, ?_⟩, fun m => ⟨?_, ?_⟩⟩
  · intro hx
    exact slicesAlike_of_relativeIndex invoke receiver (relativeIndex_withoutFraction h hx)
  · intro hx
    exact slicesAlike_of_relativeIndex invoke receiver (relativeIndex_of_above hx)
  · intro rest
    refine ⟨fun hx => ?_, fun hx => ?_⟩
    · simp only [run_charAt, unitAt_withoutFraction h hx]
    · simp only [run_charAt, unitAt_of_isNaN hx]
  · intro needle rest
    exact run_indexOf_congr invoke receiver (searchStart_withoutFraction h) needle rest
  · intro s
    have hstart := startsAt_relativeIndex h (Text.units s).length
    exact ⟨_, hstart, run_stringSlice invoke s m hstart.le⟩
  · intro id items hitems
    have hstart := startsAt_relativeIndex h items.size
    exact ⟨_, hstart, run_arraySlice invoke hitems hstart.le⟩

theorem value?_zero : value? 0 = some 0 := by
  have hdecode : decode 0 = .finite false 0 (-1074) := by decide
  rw [value?_of_decode hdecode]
  simp

theorem value?_minus_half : value? (-0.5) = some (-1 / 2) := by
  have hdecode : decode (-0.5) = .finite true 4503599627370496 (-53) := by decide
  rw [value?_of_decode hdecode]
  norm_num

theorem withoutFraction_minus_half : WithoutFraction (-0.5) 0 := by
  refine .finite value?_minus_half ?_
  rw [towardZero_of_above (by norm_num) (by norm_num), value?_zero]
  norm_num

/-- A half before zero means the end in a slice, and the first place in a search. -/
theorem positions_count_by_integer_part_minus_half :
    SlicesAlike (fun _ _ _ _ => throw .outOfFuel) (.string "abc") (-0.5) infinity ∧
      run (fun _ _ _ _ => throw .outOfFuel) .stringIndexOf (.string "abc")
          [.string "a", .number (-0.5)] =
        run (fun _ _ _ _ => throw .outOfFuel) .stringIndexOf (.string "abc")
          [.string "a", .number 0] := by
  obtain ⟨-, hcounts⟩ := positions_count_by_integer_part (-0.5)
  obtain ⟨hreceiver, -⟩ := hcounts (fun _ _ _ _ => throw .outOfFuel) _ withoutFraction_minus_half
  obtain ⟨-, habove, -, hindex⟩ := hreceiver (.string "abc")
  exact ⟨habove ⟨_, value?_minus_half, by norm_num, by norm_num⟩, hindex (.string "a") []⟩

theorem withoutFraction_nan : WithoutFraction nan 0 :=
  .nan (by decide) value?_zero

/-- A half before zero does not start a slice where zero does, and what is not a number has no unit
where zero has one. -/
theorem integer_part_misread_in_slice_and_index :
    (WithoutFraction (-0.5) 0 ∧
      run (fun _ _ _ _ => throw .outOfFuel) .stringSlice (.string "abc") [.number (-0.5)]
        (Machine.bare none) = .ok (.string "") (Machine.bare none) ∧
      run (fun _ _ _ _ => throw .outOfFuel) .stringSlice (.string "abc") [.number 0]
        (Machine.bare none) = .ok (.string "abc") (Machine.bare none)) ∧
    WithoutFraction nan 0 ∧
      run (fun _ _ _ _ => throw .outOfFuel) .stringCharAt (.string "abc") [.number nan]
        (Machine.bare none) = .ok (.string "") (Machine.bare none) ∧
      run (fun _ _ _ _ => throw .outOfFuel) .stringCharAt (.string "abc") [.number 0]
        (Machine.bare none) = .ok (.string "a") (Machine.bare none) := by
  have hlate : Text.ofUnits ((Text.units "abc").drop
      (relativeIndex (-0.5) (Text.units "abc").length)) = "" := by decide
  have hfirst : Text.ofUnits ((Text.units "abc").drop
      (relativeIndex 0 (Text.units "abc").length)) = "abc" := by decide
  have hnone : unitAt "abc" nan = "" := by decide
  have hunit : unitAt "abc" 0 = "a" := by decide
  refine ⟨⟨withoutFraction_minus_half, ?_, ?_⟩, withoutFraction_nan, ?_, ?_⟩
  · rw [run_stringSlice _ _ _ (by decide), hlate]
  · rw [run_stringSlice _ _ _ (by decide), hfirst]
  · change EStateM.Result.ok (Value.string (unitAt "abc" nan)) _ = _
    rw [hnone]
  · change EStateM.Result.ok (Value.string (unitAt "abc" 0)) _ = _
    rw [hunit]

end Native

end ScriptEngine
