import ScriptEngine.Proofs.Token.ByteScan
import ScriptEngine.Proofs.Token.Streams

/-!
# Slices spelled and scanned again

A slice of scanned tokens is spelled with one blank where the source had a gap. Scanned again, the
spelling has the words of the slice, and it is spelled as before.
-/

namespace ScriptEngine

open Text

namespace Token

theorem Slice.tokens_clamp {ts : List Token} {i j : Nat} (hj : j ≤ ts.length) :
    (clamp ts.toArray i j).tokens = (ts.drop i).take (j - i) := by
  simp only [tokens, clamp, List.size_toArray, Nat.min_eq_left hj, List.extract_toArray]
  rcases Nat.le_total i j with hij | hij
  · simp [Nat.min_eq_left hij]
  · simp [Nat.min_eq_right hij, Nat.sub_eq_zero_of_le hij]

theorem Slice.text_clamp {ts : List Token} {i j : Nat} (hj : j ≤ ts.length) :
    (clamp ts.toArray i j).text = spell ((ts.drop i).take (j - i)) := by
  rw [text, tokens_clamp hj]

/-- The text of any slice before the end of input is scanned to the words of the slice, and the new
tokens have that text again. -/
theorem slice_rescans {text : String} {ts : List Token} (h : scan text = .ok ts) (a b : Nat)
    (hb : b < ts.length) :
    ∃ us, scan (Slice.clamp ts.toArray a b).text = .ok us ∧
      us.map word = ((ts.drop a).take (b - a)).map word ++ [(.endOfInput, "")] ∧
      (Slice.clamp us.toArray 0 us.length).text = (Slice.clamp ts.toArray a b).text ∧
      (Slice.clamp us.toArray 0 (us.length - 1)).text = (Slice.clamp ts.toArray a b).text := by
  have hscan : ScansTo (spell ((ts.drop a).take (b - a))).toList
      (((ts.drop a).take (b - a)).map word ++ [(.endOfInput, "")]) := by
    rcases Nat.lt_or_ge b a with hab | hab
    · simpa [Nat.sub_eq_zero_of_le (Nat.le_of_lt hab), spell] using scansTo_nil
    · obtain ⟨p, cs, hrest⟩ := scanFrom_drop (i := a) (scanFrom_of_scan h) (by omega)
      have hn : b - a < (ts.drop a).length := by
        rw [List.length_drop]
        omega
      simpa using scansTo_spell hrest hn (fun hne => absurd rfl hne) .done scansTo_nil
  obtain ⟨us, hus, hws, ⟨hspell, hbefore⟩, -⟩ := hscan Position.first
  refine ⟨us, ?_, hws, ?_, ?_⟩
  · rw [Slice.text_clamp (Nat.le_of_lt hb), scan_eq_scanFrom]
    exact hus
  · rw [Slice.text_clamp (Nat.le_refl _), Slice.text_clamp (Nat.le_of_lt hb), List.drop_zero,
      Nat.sub_zero, List.take_length]
    exact String.toList_injective hspell
  · rw [Slice.text_clamp (Nat.sub_le _ _), Slice.text_clamp (Nat.le_of_lt hb), List.drop_zero,
      Nat.sub_zero, ← List.dropLast_eq_take]
    exact String.toList_injective hbefore

theorem slice_rescans_open_string :
    ∃ ts, scan "a+ +b/ /**/'c" = .ok ts ∧ 6 < ts.length ∧
      (Slice.clamp ts.toArray 1 6).text = "+ +b/ 'c" ∧
      ∃ us, scan (Slice.clamp ts.toArray 1 6).text = .ok us ∧
        us.map word = ((ts.drop 1).take (6 - 1)).map word ++ [(.endOfInput, "")] ∧
        (Slice.clamp us.toArray 0 us.length).text = (Slice.clamp ts.toArray 1 6).text ∧
        (Slice.clamp us.toArray 0 (us.length - 1)).text = (Slice.clamp ts.toArray 1 6).text := by
  have hslice : (scan "a+ +b/ /**/'c").toOption.map (fun ts =>
      (decide (6 < ts.length), (Slice.clamp ts.toArray 1 6).text)) = some (true, "+ +b/ 'c") := by
    decide +kernel
  cases h : scan "a+ +b/ /**/'c" with
  | error fault =>
    rw [h] at hslice
    cases hslice
  | ok ts =>
    rw [h] at hslice
    obtain ⟨hlength, htext⟩ := Prod.mk.inj (Option.some.inj hslice)
    have hb : 6 < ts.length := of_decide_eq_true hlength
    exact ⟨ts, rfl, hb, htext, slice_rescans h 1 6 hb⟩

end Token

end ScriptEngine
