import ScriptEngine.Evaluation.Expression
import ScriptEngine.Prelude
import ScriptEngine.Proofs.Heap.IndexKeys
import ScriptEngine.Proofs.Numeric.IntegerNumerals

/-!
# Computed keys

The key of a number is its text. It is an index exactly when the number is that index, so a number
and its text address the same place, and an element of an array is addressed by one key only.
-/

namespace ScriptEngine

open Numeric

theorem arrayIndex?_eq_some_iff (key : String) (i : ℕ) :
    arrayIndex? key = some i ↔ key = toString i ∧ i ≤ 4294967294 := by
  constructor
  · intro h
    obtain ⟨hkey, hlt⟩ := eq_toString_of_arrayIndex? h
    exact ⟨hkey, Nat.le_of_lt_succ hlt⟩
  · rintro ⟨rfl, hle⟩
    exact arrayIndex?_toString (Nat.lt_succ_of_le hle)

theorem render_eq_toString_iff {x : Float} {i : ℕ} (hi : i < 2 ^ 53) :
    render x = toString i ↔ value? x = some (i : ℚ) := by
  rw [← String.toList_inj, toList_toString, render, String.toList_ofList,
    numeral_eq_toDigits_iff hi]

theorem arrayIndex?_render_iff (x : Float) (i : ℕ) :
    arrayIndex? (render x) = some i ↔ value? x = some (i : ℚ) ∧ i ≤ 4294967294 := by
  rw [arrayIndex?_eq_some_iff]
  refine and_congr_left fun hle => render_eq_toString_iff ?_
  exact Nat.lt_of_le_of_lt hle (by norm_num)

namespace Object

def ReadsElement (o : Object) (key : String) (i : ℕ) : Prop :=
  ∀ items, ({ o with kind := .array items } : Object).getOwn? key = items[i]?

def WritesElement (o : Object) (key : String) (i : ℕ) : Prop :=
  ∃ value, o.slot? key value = some (.element i)

variable {o : Object} {key : String} {i : ℕ}

theorem WritesElement.arrayIndex?_eq (h : o.WritesElement key i) : arrayIndex? key = some i := by
  obtain ⟨value, h⟩ := h
  unfold slot? at h
  split at h
  next =>
    split at h
    next =>
      obtain ⟨n, -, hn⟩ := Option.map_eq_some_iff.1 h
      cases hn
    next =>
      split at h
      next hindex =>
        split at h
        next =>
          cases h
          exact hindex
        next => cases h
      next => cases h
  next => cases h

theorem readsElement_iff : o.ReadsElement key i ↔ arrayIndex? key = some i := by
  unfold ReadsElement getOwn?
  dsimp only
  by_cases hkey : key = "length"
  · subst hkey
    rw [arrayIndex?_length]
    refine iff_of_false (fun h => ?_) nofun
    cases h #[]
  · simp only [if_neg hkey]
    cases hindex : arrayIndex? key with
    | none =>
      refine iff_of_false (fun h => ?_) nofun
      have hfull := h (Array.replicate (i + 1) .undefined)
      rw [(h #[]).trans Array.getElem?_empty] at hfull
      simp at hfull
    | some j =>
      rw [Option.some.injEq]
      refine ⟨fun h => ?_, fun h items => congrArg (items[·]?) h⟩
      change ∀ items : Array Value, items[j]? = items[i]? at h
      have hsizes : ∀ n : ℕ, j < n ↔ i < n := by
        intro n
        have hn := congrArg Option.isSome (h (Array.replicate n .undefined))
        rw [Array.getElem?_replicate, Array.getElem?_replicate, Bool.eq_iff_iff,
          Option.isSome_ite, Option.isSome_ite] at hn
        exact hn
      have hj := hsizes (i + 1)
      have hi := hsizes (j + 1)
      omega

theorem eq_of_same_element {key' : String} (h : o.ReadsElement key i ∨ o.WritesElement key i)
    (h' : o.ReadsElement key' i ∨ o.WritesElement key' i) : key = key' := by
  have hkey : ∀ k, o.ReadsElement k i ∨ o.WritesElement k i → k = toString i := by
    intro k hk
    exact (eq_toString_of_arrayIndex? (hk.elim readsElement_iff.1 (·.arrayIndex?_eq))).1
  rw [hkey key h, hkey key' h']

end Object

section Places

variable {invoke : Invoke} {e : Expr} {v : Value} {key : String} {m m' : Machine}

theorem key_of_text? (h : e.eval invoke m = .ok v m') (hv : v.text? = some key) :
    (Property.computed e).key invoke m = .ok key m' := by
  rw [Property.key, Eval.bind_of_ok h, Eval.toKey, Eval.toText]
  simp only [hv]
  rfl

end Places

/-- The keys of computed properties are canonical. The indices among the keys are the numerals
without leading zeros, and the text of a number is one exactly when the number is that index. A
number and the text that it is converted to are the same key, and no two keys address the same
element of an array. -/
theorem computed_keys_are_canonical :
    (∀ key i, arrayIndex? key = some i ↔ key = toString i ∧ i ≤ 4294967294) ∧
    (∀ x i, arrayIndex? (render x) = some i ↔ value? x = some (i : ℚ) ∧ i ≤ 4294967294) ∧
    (∀ (invoke : Invoke) (receiver : Value) (x : Float) (m : Machine), ∃ text,
      Native.run invoke .stringConstructor receiver [.number x] m = .ok (.string text) m ∧
      ∀ (e e' : Expr) (m₁ m₂ m₁' m₂' : Machine), e.eval invoke m₁ = .ok (.number x) m₂ →
        e'.eval invoke m₁' = .ok (.string text) m₂' →
        ∃ key, (Property.computed e).key invoke m₁ = .ok key m₂ ∧
          (Property.computed e').key invoke m₁' = .ok key m₂') ∧
    ∀ (o : Object) (key key' : String) (i : ℕ), o.ReadsElement key i ∨ o.WritesElement key i →
      o.ReadsElement key' i ∨ o.WritesElement key' i → key = key' := by
  refine ⟨arrayIndex?_eq_some_iff, arrayIndex?_render_iff, fun invoke receiver x m => ?_,
    fun o key key' i => Object.eq_of_same_element⟩
  refine ⟨render x, rfl, fun e e' m₁ m₂ m₁' m₂' h h' => ⟨render x, ?_, ?_⟩⟩
  · exact key_of_text? h rfl
  · exact key_of_text? h' rfl

/-- The zero below zero is the first index, as a number and as its text, and no other key writes to
the first element. -/
theorem computed_keys_are_canonical_minus_zero :
    arrayIndex? (render (-0)) = some 0 ∧
    (∃ text key, (Property.computed (.number default (-0))).key (fun _ _ _ _ => throw .outOfFuel)
        (Machine.bare none) = .ok key (Machine.bare none) ∧
      (Property.computed (.string default text)).key (fun _ _ _ _ => throw .outOfFuel)
        (Machine.bare none) = .ok key (Machine.bare none)) ∧
    (Object.bare (.array #[]) none).WritesElement "0" 0 ∧ render (-0) = "0" := by
  have hdecode : decode (-0) = .finite true 0 (-1074) := by decide
  have hwrites : (Object.bare (.array #[]) none).WritesElement "0" 0 := ⟨.undefined, by decide⟩
  obtain ⟨-, hnumbers, hplaces, hunique⟩ := computed_keys_are_canonical
  have hindex : arrayIndex? (render (-0)) = some 0 := by
    refine (hnumbers (-0) 0).2 ⟨?_, by norm_num⟩
    rw [value?_of_decode hdecode]
    simp
  refine ⟨hindex, ?_, hwrites, hunique _ _ _ 0 (.inl (Object.readsElement_iff.2 hindex))
    (.inr hwrites)⟩
  obtain ⟨text, -, hkeys⟩ := hplaces (fun _ _ _ _ => throw .outOfFuel) .undefined (-0)
    (Machine.bare none)
  obtain ⟨key, hnumber, htext⟩ := hkeys (.number default (-0)) (.string default text)
    (Machine.bare none) _ (Machine.bare none) _ rfl rfl
  exact ⟨text, key, hnumber, htext⟩

end ScriptEngine
