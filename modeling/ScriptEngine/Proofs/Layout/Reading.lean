import ScriptEngine.Proofs.Syntax.Relocation
import ScriptEngine.Proofs.Syntax.Steps
import ScriptEngine.Syntax.Print

/-!
# Reading the same words in other places

Two streams with the same words, and a view in which their places look the same. A reader sees the
words only and leaves the places to the origins of nodes, so on both streams it comes to the same
index, with results that look the same, or it fails for the same reason at the same token. The two
ends of input need not look the same: a reader of nodes fails there, so no node begins at the end of
input, and none takes it in.
-/

namespace ScriptEngine

open SyntaxError Token

/-- A stream with the words of another one. Their places look the same in the view, up to the end of
input. -/
structure Respacing where
  source : Stream
  copy : Stream
  view : Relocation
  closed : source.Closed
  size_copy : copy.tokens.size = source.tokens.size
  word_copy (i : Nat) : (copy.get i).word = (source.get i).word
  span_copy (i : Nat) (hi : i < source.last) :
    view.span (copy.get i).span = view.span (source.get i).span
  spanFrom_copy {start stop : Nat} (hstart : start < source.last) (hstop : stop ≤ source.last) :
    view.span (Parse.spanFrom copy start stop) = view.span (Parse.spanFrom source start stop)
  slice_copy (start : Nat) {stop : Nat} (hstop : stop ≤ source.last) :
    view.slice (Slice.clamp copy.tokens start stop) =
      view.slice (Slice.clamp source.tokens start stop)

namespace Respacing

variable (R : Respacing)

theorem last_copy : R.copy.last = R.source.last := by
  rw [Stream.last, Stream.last, R.size_copy]

theorem kindAt_copy (i : Nat) : R.copy.kindAt i = R.source.kindAt i :=
  congrArg Prod.fst (R.word_copy i)

end Respacing

variable {α β γ δ : Type}

/-- Two readers of the two streams come from an index to the same index, with results that look the
same, or they fail for the same reason at the same token. -/
def AlikeAt (R : Respacing) (view : α → β) (i : Nat) (p p' : Parse α) : Prop :=
  (∃ a a' j, p R.source i = .ok (a, j) ∧ p' R.copy i = .ok (a', j) ∧ j ≤ R.source.last ∧
    view a' = view a) ∨
  ∃ c k, p R.source i = .error (.atToken c (R.source.get k)) ∧
    p' R.copy i = .error (.atToken c (R.copy.get k))

def ReadsAlike (R : Respacing) (view : α → β) (p p' : Parse α) : Prop :=
  ∀ i ≤ R.source.last, AlikeAt R view i p p'

def BeginsAlike (R : Respacing) (view : α → β) (p p' : Parse α) : Prop :=
  ∀ i < R.source.last, AlikeAt R view i p p'

def StopsAlike (R : Respacing) (p p' : Parse α) : Prop :=
  ∃ c, p R.source R.source.last = .error (.atToken c (R.source.get R.source.last)) ∧
    p' R.copy R.source.last = .error (.atToken c (R.copy.get R.source.last))

theorem AlikeAt.congr {R : Respacing} {view : α → β} {i j : Nat} {p p' q q' : Parse α}
    (h : AlikeAt R view j q q') (hp : p R.source i = q R.source j)
    (hp' : p' R.copy i = q' R.copy j) : AlikeAt R view i p p' := by
  rwa [AlikeAt, hp, hp']

theorem Token.describe_congr {t t' : Token} (h : t'.word = t.word) :
    t'.describe = t.describe ∧ t'.described? = t.described? := by
  obtain ⟨kind, text, span⟩ := t
  obtain ⟨kind', text', span'⟩ := t'
  cases h
  exact ⟨rfl, rfl⟩

namespace StopsAlike

open Parse

variable {R : Respacing} {p p' q q' : Parse α} {f f' : β → Parse α}

theorem congr (h : StopsAlike R q q') (hp : p R.source R.source.last = q R.source R.source.last)
    (hp' : p' R.copy R.source.last = q' R.copy R.source.last) : StopsAlike R p p' := by
  rwa [StopsAlike, hp, hp']

theorem fail (c : Cause) : StopsAlike R (fail c : Parse α) (Parse.fail c) :=
  ⟨c, rfl, rfl⟩

theorem unexpected : StopsAlike R (unexpected : Parse α) Parse.unexpected := by
  refine ⟨.unexpectedToken (R.source.get R.source.last).describe, rfl, ?_⟩
  rw [← (describe_congr (R.word_copy R.source.last)).1]
  rfl

theorem bind {p p' : Parse β} (h : StopsAlike R p p') : StopsAlike R (p >>= f) (p' >>= f') := by
  obtain ⟨c, hp, hp'⟩ := h
  refine ⟨c, ?_, ?_⟩
  · rw [bind_apply, hp]
    rfl
  · rw [bind_apply, hp']
    rfl

theorem get_bind {f f' : Nat → Parse α} (h : ∀ i, StopsAlike R (f i) (f' i)) :
    StopsAlike R (get >>= f) (get >>= f') :=
  h R.source.last

theorem kind_bind {f f' : Kind → Parse α} (h : StopsAlike R (f .endOfInput) (f' .endOfInput)) :
    StopsAlike R (kind >>= f) (kind >>= f') := by
  refine h.congr ?_ ?_
  · rw [run_bind run_kind, R.closed]
  · rw [run_bind run_kind, R.kindAt_copy, R.closed]

theorem peek_bind {f f' : Token → Parse α}
    (h : ∀ t t', t.kind = .endOfInput → t'.kind = .endOfInput → StopsAlike R (f t) (f' t')) :
    StopsAlike R (peek >>= f) (peek >>= f') :=
  h (R.source.get R.source.last) (R.copy.get R.source.last) R.closed
    ((R.kindAt_copy R.source.last).trans R.closed)

theorem eat_bind {f f' : Bool → Parse α} {k : Kind} (hk : k ≠ .endOfInput)
    (h : StopsAlike R (f false) (f' false)) : StopsAlike R (eat k >>= f) (eat k >>= f') := by
  have hend : R.source.kindAt R.source.last ≠ k := fun h => hk (h.symm.trans R.closed)
  refine h.congr (run_bind (run_eat_of_ne hend)) (run_bind (run_eat_of_ne ?_))
  rwa [R.kindAt_copy]

theorem expect_bind {f f' : Unit → Parse α} {c : Symbol} {what : Expectation} :
    StopsAlike R (expect c what >>= f) (expect c what >>= f') := by
  have hexpect : StopsAlike R (expect c what) (expect c what) := by
    unfold expect checkSymbol check
    rw [bind_assoc]
    exact kind_bind (fail (.expected what))
  exact hexpect.bind

end StopsAlike

namespace BeginsAlike

open Parse

variable {R : Respacing} {view : α → β}

theorem get_bind {f f' : Nat → Parse α}
    (h : ∀ start < R.source.last, ReadsAlike R view (f start) (f' start)) :
    BeginsAlike R view (get >>= f) (get >>= f') :=
  fun i hi => h i hi i (Nat.le_of_lt hi)

theorem kind_bind {f f' : Kind → Parse α} (h : ∀ k, BeginsAlike R view (f k) (f' k)) :
    BeginsAlike R view (kind >>= f) (kind >>= f') := by
  intro i hi
  refine (h _ i hi).congr (run_bind run_kind) ?_
  rw [run_bind run_kind, R.kindAt_copy]

end BeginsAlike

namespace ReadsAlike

open Parse

variable {R : Respacing} {view : α → β} {view' : γ → δ}

theorem pure {a a' : α} (h : view a' = view a) : ReadsAlike R view (pure a) (pure a') :=
  fun i hi => .inl ⟨a, a', i, rfl, rfl, hi, h⟩

theorem bind {p p' : Parse α} {f f' : α → Parse γ} (hp : ReadsAlike R view p p')
    (hf : ∀ a a', view a' = view a → ReadsAlike R view' (f a) (f' a')) :
    ReadsAlike R view' (p >>= f) (p' >>= f') := by
  intro i hi
  unfold AlikeAt
  rw [bind_apply, bind_apply]
  obtain ⟨a, a', j, ha, ha', hj, hview⟩ | ⟨c, k, he, he'⟩ := hp i hi
  · rw [ha, ha']
    exact hf a a' hview j hj
  · rw [he, he']
    exact .inr ⟨c, k, rfl, rfl⟩

theorem map {p p' : Parse α} {c : α → γ} (hp : ReadsAlike R view p p')
    (hc : ∀ a a', view a' = view a → view' (c a') = view' (c a)) :
    ReadsAlike R view' (c <$> p) (c <$> p') :=
  hp.bind fun a a' ha => pure (hc a a' ha)

section Steps

/-- Readers that fail at the end of input need only be alike before it. -/
theorem of_begins {p p' : Parse α} (hend : StopsAlike R p p') (h : BeginsAlike R view p p') :
    ReadsAlike R view p p' := by
  intro i hi
  obtain hlt | rfl := Nat.lt_or_eq_of_le hi
  · exact h i hlt
  · obtain ⟨c, hp, hp'⟩ := hend
    exact .inr ⟨c, R.source.last, hp, hp'⟩

theorem rounds_bind {f f' : Nat → Parse γ} (h : ∀ n, ReadsAlike R view' (f n) (f' n)) :
    ReadsAlike R view' (rounds >>= f) (rounds >>= f') := by
  intro i hi
  refine (h _ i hi).congr (run_bind run_rounds) ?_
  rw [run_bind run_rounds, R.size_copy]

theorem peek_bind {f f' : Token → Parse γ}
    (h : ∀ t t', t'.word = t.word → ReadsAlike R view' (f t) (f' t')) :
    ReadsAlike R view' (peek >>= f) (peek >>= f') :=
  fun i hi => h _ _ (R.word_copy i) i hi

theorem kind_bind {f f' : Kind → Parse γ} (h : ∀ k, ReadsAlike R view' (f k) (f' k)) :
    ReadsAlike R view' (kind >>= f) (kind >>= f') := by
  intro i hi
  refine (h _ i hi).congr (run_bind run_kind) ?_
  rw [run_bind run_kind, R.kindAt_copy]

theorem check_bind {f f' : Bool → Parse γ} {k : Kind} (h : ∀ b, ReadsAlike R view' (f b) (f' b)) :
    ReadsAlike R view' (check k >>= f) (check k >>= f') := by
  intro i hi
  refine (h _ i hi).congr (run_bind (run_check k)) ?_
  rw [run_bind (run_check k), R.kindAt_copy]

theorem advance_bind {f f' : Token → Parse γ}
    (h : ∀ t t', t'.word = t.word → ReadsAlike R view' (f t) (f' t')) :
    ReadsAlike R view' (advance >>= f) (advance >>= f') := by
  intro i hi
  by_cases hlast : i < R.source.last
  · have hlast' : i < R.copy.last := R.last_copy ▸ hlast
    exact (h _ _ (R.word_copy i) (i + 1) hlast).congr (run_bind (run_advance hlast))
      (run_bind (run_advance hlast'))
  · have hlast' : ¬i < R.copy.last := R.last_copy ▸ hlast
    exact (h _ _ (R.word_copy i) i hi).congr (run_bind (run_advance_at_last hlast))
      (run_bind (run_advance_at_last hlast'))

theorem fail (cause : Cause) : ReadsAlike R view (fail cause) (fail cause) :=
  fun i _ => .inr ⟨cause, i, rfl, rfl⟩

theorem unexpected : ReadsAlike R view unexpected unexpected := by
  refine peek_bind fun t t' ht => ?_
  rw [(describe_congr ht).1]
  exact fail _

theorem eat_bind {f f' : Bool → Parse γ} {k : Kind} (h : ∀ b, ReadsAlike R view' (f b) (f' b)) :
    ReadsAlike R view' (eat k >>= f) (eat k >>= f') := by
  unfold eat
  simp only [bind_assoc]
  refine check_bind fun found => ?_
  split
  · simp only [bind_assoc, pure_bind]
    exact advance_bind fun _ _ _ => h true
  · exact h false

theorem expect_bind {f f' : Unit → Parse γ} {c : Symbol} {what : Expectation}
    (h : ReadsAlike R view' (f ()) (f' ())) :
    ReadsAlike R view' (expect c what >>= f) (expect c what >>= f') := by
  have hexpect : ReadsAlike R id (expect c what) (expect c what) := by
    refine check_bind fun found => ?_
    split
    · exact advance_bind fun _ _ _ => pure rfl
    · exact fail _
  exact hexpect.bind fun _ _ _ => h

theorem originFrom_bind {f f' : Origin → Parse γ} {start : Nat} (hstart : start < R.source.last)
    (h : ∀ o o', R.view.origin o' = R.view.origin o → ReadsAlike R view' (f o) (f' o')) :
    ReadsAlike R view' (originFrom start >>= f) (originFrom start >>= f') := by
  intro i hi
  refine h _ _ ?_ i hi
  simp only [Relocation.origin, R.spanFrom_copy hstart hi, R.slice_copy start hi]

theorem takeName {i : Nat} (hk : R.source.kindAt i ≠ .endOfInput) (name : String) :
    AlikeAt R R.view.ident i (do return ⟨name, (← advance).span⟩)
      (do return ⟨name, (← advance).span⟩) := by
  have hi := R.closed.lt_last hk
  have hi' : i < R.copy.last := R.last_copy ▸ hi
  refine .inl ⟨_, _, i + 1, run_bind (run_advance hi), run_bind (run_advance hi'), hi, ?_⟩
  simp only [Relocation.ident, R.span_copy i hi]

theorem expectName (what : Expectation) :
    ReadsAlike R R.view.ident (expectName what) (expectName what) := by
  intro i hi
  unfold AlikeAt Parse.expectName
  rw [run_bind run_kind, run_bind run_kind, R.kindAt_copy]
  cases hk : R.source.kindAt i with
  | identifier name => exact takeName (hk ▸ nofun) name
  | _ => exact fail _ i hi

theorem expectPropertyName :
    ReadsAlike R R.view.ident expectPropertyName expectPropertyName := by
  intro i hi
  obtain ⟨hkind, htext⟩ := Prod.mk.inj (R.word_copy i)
  unfold AlikeAt Parse.expectPropertyName
  rw [run_bind run_peek, run_bind run_peek, hkind, htext]
  have hend : (R.source.get i).kind ≠ .endOfInput → R.source.kindAt i ≠ .endOfInput := id
  cases hk : (R.source.get i).kind with
  | identifier | keyword => exact takeName (hend (hk ▸ nofun)) _
  | _ => exact fail _ i hi

theorem behind {item item' : Parse α} (k : Kind) (h : ReadsAlike R view item item') :
    ReadsAlike R (Option.map view) (behind k item) (behind k item') := by
  refine eat_bind fun found => ?_
  split
  · exact h.map fun _ _ ha => congrArg some ha
  · exact pure rfl

theorem unlessAt {a a' : α} {item item' : Parse α} (c : Symbol) (ha : view a' = view a)
    (h : ReadsAlike R view item item') :
    ReadsAlike R view (unlessAt c a item) (unlessAt c a' item') := by
  refine check_bind fun found => ?_
  split
  · exact pure ha
  · exact h

end Steps

section Loops

theorem cases_of_map_eq {o o' : Option α} (h : o'.map view = o.map view) :
    (o = none ∧ o' = none) ∨ ∃ a a', o = some a ∧ o' = some a' ∧ view a' = view a := by
  cases o with
  | none => exact .inl ⟨rfl, Option.map_eq_none_iff.mp h⟩
  | some a =>
    obtain ⟨a', rfl, ha'⟩ := Option.map_eq_some_iff.mp h
    exact .inr ⟨a, a', rfl, rfl, ha'⟩

variable {item item' : Parse α}

theorem manyUntil (stops : Kind → Bool) (h : ReadsAlike R view item item') (n : Nat) :
    ReadsAlike R (List.map view) (manyUntil stops item n) (manyUntil stops item' n) := by
  induction n with
  | zero => exact fail _
  | succ n ih =>
    refine kind_bind fun k => ?_
    split
    · exact pure rfl
    · refine h.bind fun a a' ha => ih.bind fun as as' has => pure ?_
      simp only [List.map_cons, ha, has]

theorem separated (h : ReadsAlike R view item item') (n : Nat) :
    ReadsAlike R (List.map view) (separated item n) (separated item' n) := by
  induction n with
  | zero => exact fail _
  | succ n ih =>
    refine h.bind fun a a' ha => eat_bind fun found => ?_
    split
    · refine ih.bind fun as as' has => pure ?_
      simp only [List.map_cons, ha, has]
    · exact pure (by simp only [List.map_cons, ha, List.map_nil])

theorem separatedBefore (close : Symbol) (h : ReadsAlike R view item item') :
    ReadsAlike R (List.map view) (separatedBefore close item) (separatedBefore close item') :=
  unlessAt close rfl (rounds_bind fun n => h.separated n)

theorem separatedUntil (close : Symbol) (h : ReadsAlike R view item item') (n : Nat) :
    ReadsAlike R (List.map view) (separatedUntil close item n) (separatedUntil close item' n) := by
  induction n with
  | zero => exact fail _
  | succ n ih =>
    refine check_bind fun closed => ?_
    split
    · exact pure rfl
    · refine h.bind fun a a' ha => eat_bind fun found => ?_
      split
      · refine ih.bind fun as as' has => pure ?_
        simp only [List.map_cons, ha, has]
      · exact pure (by simp only [List.map_cons, ha, List.map_nil])

theorem chain {step step' : α → Parse (Option α)}
    (hstep : ∀ a a', view a' = view a → ReadsAlike R (Option.map view) (step a) (step' a'))
    (n : Nat)
    {a a' : α} (ha : view a' = view a) : ReadsAlike R view (chain step n a) (chain step' n a') := by
  induction n generalizing a a' with
  | zero => exact fail _
  | succ n ih =>
    refine (hstep a a' ha).bind fun next next' hnext => ?_
    obtain ⟨rfl, rfl⟩ | ⟨b, b', rfl, rfl, hb⟩ := cases_of_map_eq hnext
    · exact pure ha
    · exact ih hb

end Loops

end ReadsAlike

end ScriptEngine
