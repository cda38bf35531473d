import ScriptEngine.Proofs.Evaluation.Jumps
import ScriptEngine.Proofs.Numeric.Encoding

/-!
# Loose equality

Loose equality goes down a ladder: values of one variant are compared strictly, and otherwise one
side at a time is reduced, a boolean to its number and an object to a primitive, until the values
share a variant or cannot. It is symmetric with all its effects, and it holds, without any effect,
wherever strict equality does.
-/

namespace ScriptEngine

namespace Value

def sameVariant : Value → Value → Bool
  | .undefined, .undefined | .null, .null | .bool _, .bool _ | .number _, .number _
  | .string _, .string _ | .object _, .object _ => true
  | _, _ => false

theorem sameVariant_of_strictEquals {a b : Value} (h : a.strictEquals b = true) :
    a.sameVariant b = true := by
  cases a <;> cases b <;> simp_all [strictEquals, sameVariant]

theorem looseBasic_comm (a b : Value) : a.looseBasic b = b.looseBasic a := by
  cases a with
  | undefined | null | object => cases b <;> rfl
  | bool p =>
    cases b with
    | bool q => exact Bool.beq_comm
    | number | string => exact Numeric.beq_comm _ _
    | _ => rfl
  | number x =>
    cases b with
    | bool | number | string => exact Numeric.beq_comm _ _
    | _ => rfl
  | string s =>
    cases b with
    | string t => exact BEq.comm
    | bool | number => exact Numeric.beq_comm _ _
    | _ => rfl

variable {a b : Value}

theorem exists_of_isObject (h : a.isObject = true) : ∃ id, a = .object id := by
  cases a with
  | object id => exact ⟨id, rfl⟩
  | _ => cases h

theorem looseBasic_of_isNullish (ha : a.isNullish = true) : a.looseBasic b = b.isNullish := by
  cases a with
  | undefined | null => rfl
  | _ => cases ha

theorem looseBasic_eq_beq (ha : a.isObject = false) (hb : b.isObject = false)
    (h : a.sameVariant b = false) (hna : a.isNullish = false) (hnb : b.isNullish = false) :
    ∃ x y, a.number? = some x ∧ b.number? = some y ∧ a.looseBasic b = (x == y) := by
  cases a <;> cases b <;> simp_all [isObject, sameVariant, looseBasic, isNullish, number?]

end Value

namespace Eval

variable (invoke : Invoke)

theorem bind_congr_of_yields {α β : Type} {x : Eval α} {f g : α → Eval β} {Q : α → Prop}
    (hx : Yields x Q) (h : ∀ a, Q a → f a = g a) : x >>= f = x >>= g := by
  funext m
  simp only [bind, EStateM.bind]
  cases hm : x m with
  | ok a m' => simp only [h a (hx m a m' hm)]
  | error e m' => rfl

theorem yields_throwNamed {α : Type} {Q : α → Prop} (c : ErrorClass) (message : String) :
    Yields (throwNamed c message) Q :=
  yields_seq fun _ => yields_seq fun _ => yields_throw _

theorem yields_toPrimitive (v : Value) :
    Yields (toPrimitive invoke v) fun r => r.isObject = false := by
  cases v with
  | object id =>
    refine yields_seq fun method => yields_seq fun found => ?_
    split
    · refine yields_seq fun r => ?_
      split
      next => exact yields_throwNamed _ _
      next hr => exact yields_pure (Bool.eq_false_iff.mpr hr)
    · exact yields_throwNamed _ _
  | _ => exact yields_pure rfl

theorem looseEquals_of_primitives {a b : Value} (ha : a.isObject = false)
    (hb : b.isObject = false) :
    looseEquals invoke a b = pure (a.looseBasic b) := by
  cases a <;> cases b <;> simp_all [Value.isObject, looseEquals]

theorem looseEquals_object (id : ObjectId) {b : Value} (hb : ¬b.isObject = true) :
    looseEquals invoke (.object id) b =
      if b.isNullish then pure false
      else do return (← toPrimitive invoke (.object id)).looseBasic b.numberIfBool := by
  cases b with
  | object => exact absurd rfl hb
  | _ => rfl

theorem looseEquals_object_right (id : ObjectId) {a : Value} (ha : ¬a.isObject = true) :
    looseEquals invoke a (.object id) =
      if a.isNullish then pure false
      else do return a.numberIfBool.looseBasic (← toPrimitive invoke (.object id)) := by
  cases a with
  | object => exact absurd rfl ha
  | _ => rfl

/-- One rung of the ladder, above the rungs that follow when a side has been reduced. -/
def rung (next : Value → Value → Eval Bool) (a b : Value) : Eval Bool := do
  if a.sameVariant b then
    return a.strictEquals b
  else
    match a, b with
    | .undefined, .null | .null, .undefined => return true
    | .number x, .string s | .string s, .number x => return x == Numeric.ofText s
    | .bool p, other | other, .bool p => next (.number (if p then 1 else 0)) other
    | .object _, .number _ | .object _, .string _ => next (← toPrimitive invoke a) b
    | .number _, .object _ | .string _, .object _ => next a (← toPrimitive invoke b)
    | _, _ => return false

theorem rung_of_sameVariant {next : Value → Value → Eval Bool} {a b : Value}
    (h : a.sameVariant b = true) : rung invoke next a b = pure (a.strictEquals b) := by
  unfold rung
  rw [if_pos h]

theorem looseEquals_comm (a b : Value) : looseEquals invoke b a = looseEquals invoke a b := by
  by_cases ha : a.isObject = true <;> by_cases hb : b.isObject = true
  · obtain ⟨i, rfl⟩ := Value.exists_of_isObject ha
    obtain ⟨j, rfl⟩ := Value.exists_of_isObject hb
    exact congrArg pure (BEq.comm (a := j) (b := i))
  · obtain ⟨i, rfl⟩ := Value.exists_of_isObject ha
    rw [looseEquals_object invoke i hb, looseEquals_object_right invoke i hb]
    simp only [Value.looseBasic_comm]
  · obtain ⟨j, rfl⟩ := Value.exists_of_isObject hb
    rw [looseEquals_object invoke j ha, looseEquals_object_right invoke j ha]
    simp only [Value.looseBasic_comm]
  · rw [Bool.not_eq_true] at ha hb
    rw [looseEquals_of_primitives invoke ha hb, looseEquals_of_primitives invoke hb ha,
      Value.looseBasic_comm]

/-- The ladder: loose equality is its own rungs one below the other. -/
theorem looseEquals_eq_rung (a b : Value) :
    looseEquals invoke a b = rung invoke (looseEquals invoke) a b := by
  -- a reduced side is a primitive, so one more rung decides
  have hreduced (v c : Value) (hc : c.isObject = false) :
      (do return (← toPrimitive invoke v).looseBasic c) =
        (do looseEquals invoke (← toPrimitive invoke v) c) :=
    bind_congr_of_yields (yields_toPrimitive invoke v) fun r hr =>
      (looseEquals_of_primitives invoke hr hc).symm
  have hreduced' (v c : Value) (hc : c.isObject = false) :
      (do return c.looseBasic (← toPrimitive invoke v)) =
        (do looseEquals invoke c (← toPrimitive invoke v)) :=
    bind_congr_of_yields (yields_toPrimitive invoke v) fun r hr =>
      (looseEquals_of_primitives invoke hc hr).symm
  cases a with
  | undefined | null | bool => cases b <;> rfl
  | number x =>
    cases b with
    | bool q => exact congrArg pure (Numeric.beq_comm _ _)
    | object j => exact hreduced' _ _ rfl
    | _ => rfl
  | string s =>
    cases b with
    | bool q => exact congrArg pure (Numeric.beq_comm _ _)
    | number y => exact congrArg pure (Numeric.beq_comm _ _)
    | object j => exact hreduced' _ _ rfl
    | _ => rfl
  | object i =>
    cases b with
    | bool q => exact (looseEquals_comm invoke (.object i) (.number _)).symm
    | number y => exact hreduced _ _ rfl
    | string t => exact hreduced _ _ rfl
    | _ => rfl

/-- Loose equality is symmetric: the two orders give the same answer or the same failure and leave
the same machine. Where strict equality holds it is true, whatever calls do and without a change of
the machine. Primitives of different variants are equal if both are nullish, unequal if one is, and
otherwise compared by number. -/
theorem loose_equality_symmetric_extends_strict (invoke : Invoke) (a b : Value) :
    (∀ m, looseEquals invoke b a m = looseEquals invoke a b m) ∧
    (a.strictEquals b = true → ∀ m, looseEquals invoke a b m = .ok true m) ∧
    (a.isObject = false → b.isObject = false → a.sameVariant b = false →
      (a.isNullish = true → b.isNullish = true → ∀ m, looseEquals invoke a b m = .ok true m) ∧
      (a.isNullish ≠ b.isNullish → ∀ m, looseEquals invoke a b m = .ok false m) ∧
      (a.isNullish = false → b.isNullish = false → ∃ x y, a.number? = some x ∧ b.number? = some y ∧
        ∀ m, looseEquals invoke a b m = .ok (x == y) m)) := by
  refine ⟨fun m => by rw [looseEquals_comm], fun h m => ?_, fun ha hb hvariant => ?_⟩
  · rw [looseEquals_eq_rung, rung_of_sameVariant invoke (Value.sameVariant_of_strictEquals h), h]
    rfl
  · rw [looseEquals_of_primitives invoke ha hb]
    refine ⟨fun hna hnb m => ?_, fun hne m => ?_, fun hna hnb => ?_⟩
    · rw [Value.looseBasic_of_isNullish hna, hnb]
      rfl
    · cases hna : a.isNullish with
      | true =>
        rw [hna] at hne
        rw [Value.looseBasic_of_isNullish hna, Bool.eq_false_iff.mpr hne.symm]
        rfl
      | false =>
        rw [hna] at hne
        have hnb : b.isNullish = true := Bool.ne_false_iff.mp hne.symm
        rw [Value.looseBasic_comm, Value.looseBasic_of_isNullish hnb, hna]
        rfl
    · obtain ⟨x, y, hx, hy, h⟩ := Value.looseBasic_eq_beq ha hb hvariant hna hnb
      exact ⟨x, y, hx, hy, fun m => by rw [h]; rfl⟩

/-- Equal texts, the two nullish values, a boolean against one of them, and a boolean against a
text, in a machine whose calls do not end. -/
theorem loose_equality_symmetric_extends_strict_samples :
    (∀ m, looseEquals (Eval.invoke 0) (.string "x") (.string "x") m = .ok true m) ∧
    (∀ m, looseEquals (Eval.invoke 0) .undefined .null m = .ok true m) ∧
    (∀ m, looseEquals (Eval.invoke 0) (.bool false) .null m = .ok false m) ∧
    ∃ x y, (Value.bool true).number? = some x ∧ (Value.string " 1").number? = some y ∧
      ∀ m, looseEquals (Eval.invoke 0) (.bool true) (.string " 1") m = .ok (x == y) m :=
  ⟨(loose_equality_symmetric_extends_strict _ (.string "x") (.string "x")).2.1 (by decide),
    ((loose_equality_symmetric_extends_strict _ .undefined .null).2.2 rfl rfl rfl).1 rfl rfl,
    ((loose_equality_symmetric_extends_strict _ (.bool false) .null).2.2 rfl rfl rfl).2.1
      (by decide),
    ((loose_equality_symmetric_extends_strict _ (.bool true) (.string " 1")).2.2 rfl rfl rfl).2.2
      rfl rfl⟩

end Eval

end ScriptEngine
