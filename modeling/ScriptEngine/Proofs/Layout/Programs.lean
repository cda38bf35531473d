import ScriptEngine.Proofs.Layout.Grammar
import ScriptEngine.Proofs.Token.Positions
import ScriptEngine.Proofs.Token.Streams
import ScriptEngine.Syntax.Program

/-!
# Programs in another layout

Two texts with the same words, written together in the same places, are two layouts of one program:
both are refused for the same reason at the same word, or both are read as programs that are the
same once places are forgotten.
-/

namespace ScriptEngine

open SyntaxError Token

namespace Token

def Adjacent (ts : List Token) (i : Nat) : Prop :=
  ∃ t u, ts[i]? = some t ∧ ts[i + 1]? = some u ∧ t.span.stop = u.span.start

instance (ts : List Token) (i : Nat) : Decidable (Adjacent ts i) :=
  decidable_of_iff (ts[i]?.any fun t => ts[i + 1]?.any fun u => t.span.stop == u.span.start)
    (by simp [Adjacent, Option.any_eq_true])

theorem gap_iff_not_adjacent {text : String} {ts : List Token} (h : scan text = .ok ts) {s : Stream}
    (hs : s.tokens = ts.toArray) {i : Nat} (hi : i + 1 < ts.length) :
    (s.get i).span.stop < (s.get (i + 1)).span.start ↔ ¬Adjacent ts i := by
  have hlaid := laid_of_scan h
  have hle := (List.pairwise_iff_getElem.mp hlaid.ordered i (i + 1) (by omega) hi (by omega)).2
  have hadjacent : Adjacent ts i ↔ ts[i].span.stop = ts[i + 1].span.start := by
    simp [Adjacent, List.getElem?_eq_getElem hi, List.getElem?_eq_getElem (Nat.lt_of_succ_lt hi)]
  rw [Stream.get_of_tokens hs (Nat.lt_of_succ_lt hi), Stream.get_of_tokens hs hi, hadjacent]
  omega

theorem Stream.word_get {s : Stream} {ts : List Token} (hs : s.tokens = ts.toArray) (i : Nat) :
    some (s.get i).word = (ts.map word)[min i (ts.length - 1)]? := by
  have hsize := s.size_pos
  have hi : min i (ts.length - 1) < ts.length := by
    simp only [hs, List.size_toArray] at hsize
    omega
  simp [Stream.get, Stream.last, hs, List.getElem?_eq_getElem hi]

theorem Stream.tokens_clamp (s : Stream) (start : Nat) {stop : Nat} (hstop : stop ≤ s.last) :
    (Slice.clamp s.tokens start stop).tokens = (List.range' start (stop - start)).map s.get := by
  have hsize := s.size_pos
  simp only [Stream.last] at hstop
  apply List.ext_getElem
  · rw [Slice.length_tokens]
    simp only [Slice.length, Slice.clamp, List.length_map, List.length_range']
    omega
  · intro i hi hi'
    simp only [List.length_map, List.length_range'] at hi'
    have hmin : min start (min stop s.tokens.size) = start := by omega
    simp only [Slice.tokens, Slice.clamp, Array.getElem_toList, Array.getElem_extract, hmin,
      List.getElem_map, List.getElem_range', Stream.get, Stream.last]
    congr 1
    omega

section Gaps

variable {s s' : Stream} (hlast : s'.last = s.last)
  (hword : ∀ i, (s'.get i).word = (s.get i).word)
  (hgap : ∀ i, i + 1 < s.last → ((s'.get i).span.stop < (s'.get (i + 1)).span.start ↔
    (s.get i).span.stop < (s.get (i + 1)).span.start))
include hword hgap

theorem spell_congr {start n : Nat} (h : start + n ≤ s.last) :
    spell ((List.range' start n).map s'.get) = spell ((List.range' start n).map s.get) := by
  induction n generalizing start with
  | zero => rfl
  | succ n ih =>
    have htext := congrArg Prod.snd (hword start)
    cases n with
    | zero => exact htext
    | succ n =>
      have hrest := @ih (start + 1) (by omega)
      simp only [List.range'_succ, List.map_cons, spell, hgap start (by omega)] at hrest ⊢
      rw [hrest]
      exact congrArg (· ++ _ ++ _) htext

include hlast

theorem text_clamp_congr (start : Nat) {stop : Nat} (hstop : stop ≤ s.last) :
    (Slice.clamp s'.tokens start stop).text = (Slice.clamp s.tokens start stop).text := by
  rw [Slice.text, Slice.text, Stream.tokens_clamp _ _ (hlast ▸ hstop),
    Stream.tokens_clamp _ _ hstop]
  by_cases hstart : start ≤ stop
  · exact spell_congr hword hgap (by omega)
  · rw [show stop - start = 0 by omega]
    rfl

end Gaps

end Token

namespace Respacing

variable {a b : String} {ts us : List Token} (ha : scan a = .ok ts) (hb : scan b = .ok us)
  (hwords : us.map word = ts.map word) (finish finish' : Text.Position)
include ha hb hwords

theorem size_ofScans : (Stream.ofTokens us.toArray finish').tokens.size =
    (Stream.ofTokens ts.toArray finish).tokens.size := by
  rw [Stream.tokens_ofTokens (scanFrom_of_scan ha), Stream.tokens_ofTokens (scanFrom_of_scan hb)]
  simpa using congrArg List.length hwords

theorem word_ofScans (i : Nat) : ((Stream.ofTokens us.toArray finish').get i).word =
    ((Stream.ofTokens ts.toArray finish).get i).word := by
  have hlength : us.length = ts.length := by simpa using congrArg List.length hwords
  apply Option.some.inj
  rw [Stream.word_get (Stream.tokens_ofTokens (scanFrom_of_scan hb) finish'),
    Stream.word_get (Stream.tokens_ofTokens (scanFrom_of_scan ha) finish), hwords, hlength]

theorem slice_ofScans (hadjacent : ∀ i, i + 2 < ts.length → (Adjacent us i ↔ Adjacent ts i))
    (start : Nat) {stop : Nat} (hstop : stop ≤ (Stream.ofTokens ts.toArray finish).last) :
    Relocation.forget.slice (Slice.clamp (Stream.ofTokens us.toArray finish').tokens start stop) =
      Relocation.forget.slice (Slice.clamp (Stream.ofTokens ts.toArray finish).tokens
        start stop) := by
  have hlength : us.length = ts.length := by simpa using congrArg List.length hwords
  have hsource := Stream.tokens_ofTokens (scanFrom_of_scan ha) finish
  have hcopy := Stream.tokens_ofTokens (scanFrom_of_scan hb) finish'
  have htext := text_clamp_congr ?_ (word_ofScans ha hb hwords finish finish')
    (fun i hi => ?_) start
    hstop
  · simp only [Relocation.forget, htext]
  · rw [Stream.last_of_tokens hcopy, Stream.last_of_tokens hsource, hlength]
  · rw [Stream.last_of_tokens hsource] at hi
    rw [gap_iff_not_adjacent hb hcopy (by omega), gap_iff_not_adjacent ha hsource (by omega),
      hadjacent i (by omega)]

/-- The streams of two scans with the same words, their places forgotten. -/
def ofScans (hadjacent : ∀ i, i + 2 < ts.length → (Adjacent us i ↔ Adjacent ts i)) :
    Respacing where
  source := Stream.ofTokens ts.toArray finish
  copy := Stream.ofTokens us.toArray finish'
  view := .forget
  closed := Stream.closed_ofTokens ts.toArray finish
  size_copy := size_ofScans ha hb hwords finish finish'
  word_copy := word_ofScans ha hb hwords finish finish'
  span_copy _ _ := rfl
  spanFrom_copy _ _ := rfl
  slice_copy := slice_ofScans ha hb hwords finish finish' hadjacent

end Respacing

namespace Program

open Grammar ReadsAlike

def spanOf (s : Stream) : Text.Span :=
  (s.get 0).span.merge (s.get s.last).span

theorem statements_alike (R : Respacing) :
    (∃ body body', statements R.source = .ok body ∧ statements R.copy = .ok body' ∧
      Stmt.relocateAll R.view body' = Stmt.relocateAll R.view body) ∨
    ∃ c k, statements R.source = .error (.atToken c (R.source.get k)) ∧
      statements R.copy = .error (.atToken c (R.copy.get k)) := by
  have hread := ReadsAlike.manyUntil (· == .endOfInput)
    (alike_upTo R (R.source.tokens.size + 1)).statement (R.source.tokens.size + 1) 0 (Nat.zero_le _)
  unfold statements
  simp only [R.size_copy, ReaderT.run, StateT.run]
  obtain ⟨body, body', j, hbody, hbody', -, hview⟩ | ⟨c, k, hf, hf'⟩ := hread
  · rw [hbody, hbody']
    refine .inl ⟨body, body', rfl, rfl, ?_⟩
    rw [Stmt.relocateAll_eq_map, Stmt.relocateAll_eq_map, hview]
  · rw [hf, hf']
    exact .inr ⟨c, k, rfl, rfl⟩

theorem ofStream_alike (R : Respacing)
    (hspan : R.view.span (spanOf R.copy) = R.view.span (spanOf R.source)) :
    (∃ program program', ofStream R.source = .ok program ∧ ofStream R.copy = .ok program' ∧
      program'.relocate R.view = program.relocate R.view) ∨
    ∃ c k, ofStream R.source = .error (.atToken c (R.source.get k)) ∧
      ofStream R.copy = .error (.atToken c (R.copy.get k)) := by
  unfold ofStream
  obtain ⟨body, body', hbody, hbody', hview⟩ | ⟨c, k, hf, hf'⟩ := statements_alike R
  · rw [hbody, hbody']
    refine .inl ⟨_, _, rfl, rfl, ?_⟩
    have hslice := R.slice_copy 0 (Nat.le_refl R.source.last)
    simp only [spanOf, R.last_copy] at hspan
    simp only [Block.relocate, Relocation.origin, hview, hspan, R.last_copy, hslice]
  · rw [hf, hf']
    exact .inr ⟨c, k, rfl, rfl⟩

theorem ofSource_alike {a b : String} {ts us : List Token} (ha : scan a = .ok ts)
    (hb : scan b = .ok us) (hwords : us.map word = ts.map word)
    (hadjacent : ∀ i, i + 2 < ts.length → (Adjacent us i ↔ Adjacent ts i)) (name : String) :
    (∃ r r', ofSource ⟨name, a⟩ = .error r ∧ ofSource ⟨name, b⟩ = .error r' ∧
      r' = { r with line := r'.line, column := r'.column, sourceLine := r'.sourceLine }) ∨
    ∃ program program', ofSource ⟨name, a⟩ = .ok program ∧ ofSource ⟨name, b⟩ = .ok program' ∧
      program'.relocate .forget = program.relocate .forget := by
  let R : Respacing := .ofScans ha hb hwords (Text.Source.endPosition ⟨name, a⟩)
    (Text.Source.endPosition ⟨name, b⟩) hadjacent
  have hread := ofStream_alike R rfl
  have hfound (k : Nat) := (describe_congr (R.word_copy k)).2
  simp only [R, Respacing.ofScans] at hread hfound
  simp only [ofSource, scanSource, ha, hb, ofTokens]
  obtain ⟨p, p', hp, hp', hsame⟩ | ⟨c, k, hf, hf'⟩ := hread
  · rw [hp, hp']
    exact .inr ⟨p, p', rfl, rfl, hsame⟩
  · rw [hf, hf']
    refine .inl ⟨_, _, rfl, rfl, ?_⟩
    simp only [Fault.report, Fault.atToken, hfound]

end Program

end ScriptEngine
