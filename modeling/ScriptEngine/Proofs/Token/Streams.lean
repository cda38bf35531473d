import ScriptEngine.Proofs.Numeric.Literals
import ScriptEngine.Proofs.Token.Rescanning
import ScriptEngine.Token.Stream

/-!
# Streams of scanned tokens

A scan gives tokens that are not the end of input, and the end of input behind them. Their numbers
are equal to themselves. A stream made of such a list has nothing added to it.
-/

namespace ScriptEngine

open Text

theorem NumberForm.isNumber_of_value? {form : NumberForm} {c : Char} {cs : List Char} {v : Float}
    (hc : Numeric.isDigit c = true) (h : form.value? (String.ofList (c :: cs)) = some v) :
    Numeric.IsNumber v := by
  unfold value? at h
  split at h
  next =>
    rw [String.toList_ofList] at h
    exact Numeric.isNumber_of_readFloat? hc h
  next radix hradix =>
    have hmem : radix ∈ [2, 8, 16] := by cases form <;> cases hradix <;> decide
    split at h
    next => cases h
    next => cases h
    next => exact Numeric.isNumber_of_readRadix? hmem h

namespace Token

/-- A token other than the end of input, whose number, if it is one, is equal to itself. -/
def Proper (t : Token) : Prop :=
  t.kind ≠ .endOfInput ∧ ∀ v, t.literalValue? = some v → (v == v) = true

theorem proper_ofLexeme {c : Char} {cs t : List Char} {lx : Lexeme} (h : Lexeme.next c cs = .ok lx)
    (htext : lx.text = c :: t) (p : Position) : (ofLexeme lx p).Proper := by
  obtain ⟨hend, hdigit⟩ := Lexeme.kind_of_next h
  refine ⟨hend, fun v hv => ?_⟩
  unfold literalValue? Kind.literalValue? at hv
  split at hv
  next form hkind =>
    rw [ofLexeme, htext] at hv
    exact Numeric.beq_self_of_isNumber (NumberForm.isNumber_of_value? (hdigit form hkind) hv)
  next => cases hv

theorem scanFrom_eq_concat {p : Position} {cs : List Char} {ts : List Token}
    (h : scanFrom p cs = .ok ts) : ∃ us q, ts = us ++ [atEnd q] ∧ ∀ t ∈ us, t.Proper := by
  induction ts generalizing p cs with
  | nil => obtain ⟨_, -, ⟨⟩⟩ | ⟨_, _, _, _, _, _, -, -, -, -, ⟨⟩⟩ := scanFrom_cases h
  | cons t ts ih =>
    obtain ⟨gap, -, hts⟩ | ⟨gap, c, w, r, lx, us, -, hnext, htext, hus, hts⟩ := scanFrom_cases h
    · exact ⟨[], _, hts, nofun⟩
    · cases hts
      obtain ⟨vs, q, rfl, hvs⟩ := ih hus
      refine ⟨_ :: vs, q, rfl, ?_⟩
      exact List.forall_mem_cons.mpr ⟨proper_ofLexeme hnext htext _, hvs⟩

theorem scanFrom_drop {p : Position} {cs : List Char} {ts : List Token} {i : Nat}
    (h : scanFrom p cs = .ok ts) (hi : i < ts.length) :
    ∃ q ds, scanFrom q ds = .ok (ts.drop i) := by
  induction i generalizing p cs ts with
  | zero => exact ⟨p, cs, h⟩
  | succ i ih =>
    obtain ⟨gap, -, rfl⟩ | ⟨gap, c, w, r, lx, us, -, -, -, hus, rfl⟩ := scanFrom_cases h
    · simp at hi
    · exact ih hus (Nat.lt_of_succ_lt_succ hi)

namespace Stream

/-- The input ends with the last token and not before, and no number is unequal to itself. -/
structure Regular (s : Stream) : Prop where
  ends : s.kindAt s.last = .endOfInput
  goes_on : ∀ i < s.last, s.kindAt i ≠ .endOfInput
  number_eq : ∀ i v, (s.get i).literalValue? = some v → (v == v) = true

variable {s : Stream} {ts : List Token}

theorem last_of_tokens (hs : s.tokens = ts.toArray) : s.last = ts.length - 1 := by
  simp [last, hs]

theorem get_of_tokens (hs : s.tokens = ts.toArray) {i : Nat} (hi : i < ts.length) :
    s.get i = ts[i] := by
  have hmin : min i (ts.length - 1) = i := by omega
  simp [get, hs, last_of_tokens hs, hmin]

theorem tokens_ofTokens {p : Position} {cs : List Char} (h : scanFrom p cs = .ok ts)
    (finish : Position) : (ofTokens ts.toArray finish).tokens = ts.toArray := by
  obtain ⟨us, q, rfl, -⟩ := scanFrom_eq_concat h
  have hend : 0 < (us ++ [atEnd q]).toArray.size ∧ (us ++ [atEnd q]).toArray.back?.any isEnd := by
    simp [isEnd, atEnd]
  unfold ofTokens
  rw [dif_pos hend]

theorem regular_of_scanFrom {p : Position} {cs : List Char} (h : scanFrom p cs = .ok ts)
    (hs : s.tokens = ts.toArray) : s.Regular := by
  obtain ⟨us, q, rfl, hus⟩ := scanFrom_eq_concat h
  have hlast : s.last = us.length := by simp [last_of_tokens hs]
  have hbefore : ∀ i < us.length, (s.get i).Proper := by
    intro i hi
    rw [get_of_tokens hs (by simp; omega), List.getElem_append_left hi]
    exact hus _ (List.getElem_mem hi)
  have hend : ∀ i, us.length ≤ i → s.get i = atEnd q := by
    intro i hi
    simp [get, hs, hlast, Nat.min_eq_right hi]
  refine ⟨?_, fun i hi => (hbefore i (by omega)).1, fun i v hv => ?_⟩
  · rw [kindAt, hend _ (by omega)]
    rfl
  · by_cases hi : i < us.length
    · exact (hbefore i hi).2 v hv
    · rw [hend i (by omega)] at hv
      cases hv

end Stream

end Token

end ScriptEngine
