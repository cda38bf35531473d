import ScriptEngine.Proofs.Numeric.ReadingBack
import ScriptEngine.Proofs.Token.Streams

/-!
# The values of numbers in a source

A number of a source is read twice: as a token, by its form, and as a text, by the mark it begins
with. A token of a scan is spelled as its form prescribes, and for such spellings the two readers
take the same digits, so they agree on every number and on the spellings that are none.
-/

namespace ScriptEngine

open Numeric

section Readers

variable {radix : ℕ} {mark c : Char} {ds : List Char}

theorem isBlank_of_isRadixDigit (h : isRadixDigit radix c = true) : Text.isBlank c = false := by
  obtain ⟨digit, hdigit⟩ := Option.isSome_iff_exists.mp h
  have hrank := (Option.filter_eq_some_iff.mp hdigit).1
  have hrange : 48 ≤ c.toNat ∧ c.toNat ≤ 122 := by
    have hle : ∀ a b : Char, a ≤ b ↔ a.toNat ≤ b.toNat := fun a b => UInt32.le_iff_toNat_le
    unfold digitRank? at hrank
    simp only [Bool.and_eq_true, decide_eq_true_eq, hle] at hrank
    split at hrank
    next h => exact ⟨h.1, h.2.trans (by decide)⟩
    next =>
      split at hrank
      next h => exact ⟨le_trans (by decide) h.1, h.2⟩
      next =>
        split at hrank
        next h => exact ⟨le_trans (by decide) h.1, h.2.trans (by decide)⟩
        next => cases hrank
  exact isBlank_of_visible (by omega) (by omega)

theorem isBlank_of_radixOfMark? (h : radixOfMark? mark = some radix) :
    Text.isBlank mark = false := by
  obtain ⟨-, rfl | rfl⟩ | ⟨-, rfl | rfl⟩ | ⟨-, rfl | rfl⟩ := Lexeme.radixOfMark?_eq_some h <;>
    exact isBlank_of_visible (by decide) (by decide)

theorem isSome_readRadix? (h : ∀ d ∈ ds, isRadixDigit radix d = true) :
    (readRadix? radix ds).isSome = true := by
  unfold readRadix?
  generalize (0 : Float) = start
  induction ds generalizing start with
  | nil => rfl
  | cons d ds ih =>
    obtain ⟨hd, hds⟩ := List.forall_mem_cons.mp h
    obtain ⟨digit, hdigit⟩ := Option.isSome_iff_exists.mp hd
    rw [List.foldlM_cons, hdigit]
    exact ih hds _

theorem value?_radix (hmark : radixOfMark? mark = some radix) (ds : List Char) :
    (NumberForm.ofRadix radix).value? (String.ofList ('0' :: mark :: ds)) =
      if ds.isEmpty then none else readRadix? radix ds := by
  have hform : (NumberForm.ofRadix radix).radix? = some radix := by
    obtain ⟨rfl, -⟩ | ⟨rfl, -⟩ | ⟨rfl, -⟩ := Lexeme.radixOfMark?_eq_some hmark <;> rfl
  have hdrop : Text.dropBytes 2 ('0' :: mark :: ds) = some ds := by
    obtain ⟨-, rfl | rfl⟩ | ⟨-, rfl | rfl⟩ | ⟨-, rfl | rfl⟩ :=
      Lexeme.radixOfMark?_eq_some hmark <;> simp [Text.dropBytes, Char.utf8Size]
  unfold NumberForm.value?
  rw [hform, String.toList_ofList]
  dsimp only
  rw [hdrop]
  cases ds <;> rfl

/-- Behind a mark both readers take the same digits. -/
theorem ofChars_radix (hmark : radixOfMark? mark = some radix)
    (hds : ∀ d ∈ ds, isRadixDigit radix d = true) :
    ofChars ('0' :: mark :: ds) =
      ((NumberForm.ofRadix radix).value? (String.ofList ('0' :: mark :: ds))).getD nan := by
  have htrim : Text.trim ('0' :: mark :: ds) = '0' :: mark :: ds := by
    apply trim_of_not_blank
    simp only [List.forall_mem_cons]
    exact ⟨isBlank_of_visible (by decide) (by decide), isBlank_of_radixOfMark? hmark,
      fun d hd => isBlank_of_isRadixDigit (hds d hd)⟩
  rw [value?_radix hmark, apply_ite (Option.getD · nan), Option.getD_none]
  unfold ofChars
  simp only [htrim, splitRadix?, hmark, Option.map_some, List.isEmpty_cons, Bool.false_eq_true,
    if_false]

theorem ofChars_decimal {w : List Char} (h : Lexeme.IsDecimal w) :
    ofChars w = (NumberForm.decimal.value? (String.ofList w)).getD nan := by
  have hne : w ≠ [] := Lexeme.ne_nil_of_isSpelling ⟨_, .decimal h⟩
  change _ = (readFloat? (String.ofList w).toList).getD nan
  rw [ofChars_of_all (isUnsignedDecimal_of_isDecimal h).isDecimalChar hne, String.toList_ofList]

theorem isSome_value?_decimal {w : List Char} (h : Lexeme.IsDecimal w) :
    (NumberForm.decimal.value? (String.ofList w)).isSome = true := by
  obtain ⟨c, cs, rfl⟩ := List.exists_cons_of_ne_nil (Lexeme.ne_nil_of_isSpelling ⟨_, .decimal h⟩)
  have hc := Lexeme.isDigit_of_isDecimal h
  change (readFloat? (String.ofList (c :: cs)).toList).isSome = true
  rw [String.toList_ofList]
  unfold readFloat?
  rw [splitSign_of_isDigit hc]
  dsimp only
  rw [specialOf?_of_isDigit hc, Option.isSome_map]
  exact (isSome_read?_iff _).2 (isUnsignedDecimal_of_isDecimal h)

end Readers

namespace NumberForm

variable {form : NumberForm} {text : String}

theorem ofText_eq (h : Lexeme.Spells (.number form) text.toList) :
    ofText text = (form.value? text).getD nan := by
  rw [← String.ofList_toList (s := text)]
  generalize text.toList = w at *
  unfold ofText
  rw [String.toList_ofList]
  cases h with
  | decimal hdecimal => exact ofChars_decimal hdecimal
  | radix hradix =>
    obtain ⟨mark, radix, ds, hmark, hds, -, rfl, rfl⟩ := Lexeme.isRadix_iff.mp hradix
    exact ofChars_radix hmark hds

theorem isDigit_of_spells {c : Char} {cs : List Char} (h : Lexeme.Spells (.number form) (c :: cs)) :
    isDigit c = true := by
  cases h with
  | decimal hdecimal => exact Lexeme.isDigit_of_isDecimal hdecimal
  | radix hradix =>
    obtain ⟨mark, radix, ds, -, -, -, -, hcs⟩ := Lexeme.isRadix_iff.mp hradix
    cases hcs
    rfl

theorem isNumber_of_spells (h : Lexeme.Spells (.number form) text.toList) {v : Float}
    (hv : form.value? text = some v) : IsNumber v := by
  rw [← String.ofList_toList (s := text)] at hv
  obtain ⟨c, cs, hcs⟩ := List.exists_cons_of_ne_nil (Lexeme.ne_nil_of_isSpelling ⟨_, h⟩)
  rw [hcs] at h hv
  exact isNumber_of_value? (isDigit_of_spells h) hv

/-- Only a mark without digits has no value. -/
theorem value?_eq_none_iff (h : Lexeme.Spells (.number form) text.toList) :
    form.value? text = none ↔
      ∃ mark, (radixOfMark? mark).isSome = true ∧ text.toList = ['0', mark] := by
  rw [← String.ofList_toList (s := text)]
  generalize text.toList = w at *
  rw [String.toList_ofList]
  cases h with
  | decimal hdecimal =>
    refine iff_of_false (Option.isSome_iff_ne_none.1 (isSome_value?_decimal hdecimal)) ?_
    rintro ⟨mark, hmark, rfl⟩
    rw [radixOfMark?_of_isDecimal hdecimal] at hmark
    cases hmark
  | radix hradix =>
    obtain ⟨mark, radix, ds, hmark, hds, -, rfl, rfl⟩ := Lexeme.isRadix_iff.mp hradix
    rw [value?_radix hmark]
    cases ds with
    | nil => exact iff_of_true rfl ⟨mark, by rw [hmark]; rfl, rfl⟩
    | cons d ds =>
      exact iff_of_false (Option.isSome_iff_ne_none.1 (isSome_readRadix? hds)) nofun

end NumberForm

namespace Token

open Lexeme

theorem spells_of_mem {p : Text.Position} {cs : List Char} {ts : List Token}
    (h : scanFrom p cs = .ok ts) {t : Token} (ht : t ∈ ts) {form : NumberForm}
    (hkind : t.kind = .number form) : Spells (.number form) t.text.toList := by
  induction ts generalizing p cs with
  | nil => cases ht
  | cons u us ih =>
    obtain ⟨gap, -, hts⟩ | ⟨gap, c, w, r, lx, vs, hsplit, hnext, htext, hvs, hts⟩ :=
      scanFrom_cases h
    · cases hts
      obtain rfl := List.mem_singleton.mp ht
      cases hkind
    · cases hts
      rcases List.mem_cons.mp ht with rfl | ht
      · obtain ⟨rest, -, hheads⟩ := heads_of_next hnext
        change lx.kind = _ at hkind
        change Spells _ (String.ofList lx.text).toList
        rw [hkind] at hheads
        rw [String.toList_ofList]
        cases hheads with
        | longest hspells => exact hspells
      · exact ih hvs ht

/-- The literals of a source have the values of their texts. A number that is scanned has a value
exactly when its text is read as a number, and then the two are the same. It has none only as a mark
for a radix without digits. -/
theorem literals_agree_with_texts {text : String} {ts : List Token} (h : scan text = .ok ts)
    {t : Token} (ht : t ∈ ts) {form : NumberForm} (hkind : t.kind = .number form) :
    (t.literalValue?.isSome = true ↔ isNaN (ofText t.text) = false) ∧
      (∀ v, t.literalValue? = some v → v = ofText t.text ∧ (v == ofText t.text) = true) ∧
      (t.literalValue? = none ↔
        ∃ mark, (radixOfMark? mark).isSome = true ∧ t.text.toList = ['0', mark]) := by
  have hspells := spells_of_mem (scanFrom_of_scan h) ht hkind
  have hvalue : t.literalValue? = form.value? t.text := by
    unfold literalValue? Kind.literalValue?
    rw [hkind]
  rw [← NumberForm.value?_eq_none_iff hspells, hvalue, NumberForm.ofText_eq hspells]
  refine ⟨?_, ?_, Iff.rfl⟩
  · cases hv : form.value? t.text with
    | none => exact iff_of_false Bool.false_ne_true (by decide)
    | some v => exact iff_of_true rfl (isNaN_of_isNumber (NumberForm.isNumber_of_spells hspells hv))
  · intro v hv
    rw [hv]
    exact ⟨rfl, beq_self_of_isNumber (NumberForm.isNumber_of_spells hspells hv)⟩

/-- Capital marks, digits beyond the precision of a double, an exponent, and a mark alone. -/
theorem literals_agree_with_texts_capital_marks :
    ∃ ts, scan "0XfFfFfFfFfFfFfFfF 0B 1.5E+3" = .ok ts ∧
      ts.map (fun t => t.literalValue?.map Float.toBits) =
        [some (Float.ofNat (2 ^ 64)).toBits, none, some (1500 : Float).toBits, none] ∧
      ∀ t ∈ ts, ∀ form, t.kind = .number form →
        (t.literalValue?.isSome = true ↔ isNaN (ofText t.text) = false) ∧
        ∀ v, t.literalValue? = some v → (v == ofText t.text) = true := by
  have hvalues : (scan "0XfFfFfFfFfFfFfFfF 0B 1.5E+3").toOption.map
      (·.map fun t => t.literalValue?.map Float.toBits) =
        some [some (Float.ofNat (2 ^ 64)).toBits, none, some (1500 : Float).toBits, none] := by
    decide +kernel
  cases h : scan "0XfFfFfFfFfFfFfFfF 0B 1.5E+3" with
  | error fault =>
    rw [h] at hvalues
    cases hvalues
  | ok ts =>
    rw [h] at hvalues
    refine ⟨ts, rfl, Option.some.inj hvalues, fun t ht form hkind => ?_⟩
    obtain ⟨hnumber, hvalue, -⟩ := literals_agree_with_texts h ht hkind
    exact ⟨hnumber, fun v hv => (hvalue v hv).2⟩

end Token

end ScriptEngine
