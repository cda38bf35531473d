import ScriptEngine.Proofs.Syntax.Run

/-!
# Readers step by step

A run of a reader taken apart into its single steps: it looks at the current token, takes it, marks
its place or closes a node, and ends with a result or a fault at the current token. Two readers that
differ only in their bounds are followed side by side. The tokens a step touches stand in the
stream, and the end of input is never taken.
-/

namespace ScriptEngine

open SyntaxError Token

variable {α β : Type}

/-- Two readers take the same steps from an index of a stream, and the next index and the result
satisfy a condition if there is a result. No step reaches outside of the stream, none takes an end
of input, every node covers at least one token, and no fault is due to a bound on depth or rounds.
-/
inductive InStep (s : Stream) (Q : Nat → α → Prop) : Nat → Parse α → Parse α → Prop
  | done {i : Nat} {a : α} (h : Q i a) : InStep s Q i (pure a) (pure a)
  | stuck {i : Nat} {c : Cause} (hi : i < s.tokens.size) (hc : c ≠ .tooDeep) :
      InStep s Q i (Parse.fail c) (Parse.fail c)
  | mark {i : Nat} {f f' : Nat → Parse α} (h : InStep s Q i (f i) (f' i)) :
      InStep s Q i (get >>= f) (get >>= f')
  | look {i : Nat} {f f' : Token → Parse α} (hi : i < s.tokens.size)
      (h : InStep s Q i (f s.tokens[i]) (f' s.tokens[i])) :
      InStep s Q i (Parse.peek >>= f) (Parse.peek >>= f')
  | take {i : Nat} {f f' : Token → Parse α} (hi : i + 1 < s.tokens.size)
      (hk : s.tokens[i].kind ≠ .endOfInput)
      (h : InStep s Q (i + 1) (f s.tokens[i]) (f' s.tokens[i])) :
      InStep s Q i (Parse.advance >>= f) (Parse.advance >>= f')
  | close {start i : Nat} {f f' : Origin → Parse α} (hstart : start < i) (hi : i < s.tokens.size)
      (h : InStep s Q i
        (f ⟨s.tokens[start].span.merge s.tokens[i - 1].span,
          ⟨s.tokens, start, i, by omega, by omega⟩⟩)
        (f' ⟨s.tokens[start].span.merge s.tokens[i - 1].span,
          ⟨s.tokens, start, i, by omega, by omega⟩⟩)) :
      InStep s Q i (Parse.originFrom start >>= f) (Parse.originFrom start >>= f')
  | count {i : Nat} {f f' : Nat → Parse α}
      (h : InStep s Q i (f (s.tokens.size + 1)) (f' (s.tokens.size + 1))) :
      InStep s Q i (Parse.rounds >>= f) (Parse.rounds >>= f')

/-- A reader that gives a result has gone on over tokens of the stream, none of them an end of
input. -/
def Advances (s : Stream) (p : Parse α) (i : Nat) : Prop :=
  ∀ a j, p s i = .ok (a, j) → i < j ∧ j ≤ s.last ∧
    ∀ k, i ≤ k → k < j → s.kindAt k ≠ .endOfInput

namespace Token.Stream

variable {s : Stream} {i : Nat}

theorem get_eq (hi : i < s.tokens.size) : s.get i = s.tokens[i] := by
  have hmin : min i s.last = i := by
    simp only [last]
    omega
  simp only [get, hmin]

theorem lt_size_iff : i < s.tokens.size ↔ i ≤ s.last := by
  have := s.size_pos
  simp only [last]
  omega

theorem last_lt_rounds (s : Stream) (i : Nat) : s.last < i + (s.tokens.size + 1) := by
  simp only [last]
  omega

def Closed (s : Stream) : Prop :=
  s.kindAt s.last = .endOfInput

theorem closed_ofTokens (tokens : Array Token) (finish : Text.Position) :
    (ofTokens tokens finish).Closed := by
  unfold ofTokens
  split
  next h =>
    have hback : (tokens.back?.any isEnd) = true := h.2
    rw [Array.back?_eq_getElem?, Array.getElem?_eq_getElem (by omega), Option.any_some] at hback
    simpa [Closed, kindAt, get, last, isEnd] using hback
  next => simp [Closed, kindAt, get, last, atEnd]

theorem Closed.lt_last (hs : s.Closed) (hk : s.kindAt i ≠ .endOfInput) : i < s.last := by
  refine Nat.lt_of_not_le fun hi => hk (Eq.trans ?_ hs)
  simp only [kindAt, get, Nat.min_self, Nat.min_eq_right hi]

end Token.Stream

namespace InStep

open Parse

variable {s : Stream} {i : Nat} {p p' : Parse α} {f f' : β → Parse α} {Q R : Nat → α → Prop}

theorem originAt_eq {start : Nat} (hstart : start < i) (hi : i < s.tokens.size) :
    originAt s start i =
      ⟨s.tokens[start].span.merge s.tokens[i - 1].span,
        ⟨s.tokens, start, i, by omega, by omega⟩⟩ := by
  have hmin : min i s.tokens.size = i := by omega
  have hmin' : min start i = start := by omega
  simp only [originAt, spanFrom, if_pos hstart, Stream.get_eq (show start < s.tokens.size by omega),
    Stream.get_eq (show i - 1 < s.tokens.size by omega), Slice.clamp, hmin, hmin']

theorem run (h : InStep s Q i p p') (hi : i ≤ s.last) :
    p' s i = p s i ∧ ∃ j, i ≤ j ∧ j ≤ s.last ∧ (∀ k, i ≤ k → k < j → s.kindAt k ≠ .endOfInput) ∧
      ((∃ a, p s i = .ok (a, j) ∧ Q j a) ∨
        ∃ c, c ≠ .tooDeep ∧ p s i = .error (.atToken c (s.get j))) := by
  induction h with
  | done h => exact ⟨rfl, _, Nat.le_refl _, hi, fun k _ _ => by omega, .inl ⟨_, rfl, h⟩⟩
  | stuck _ hc => exact ⟨rfl, _, Nat.le_refl _, hi, fun k _ _ => by omega, .inr ⟨_, hc, rfl⟩⟩
  | mark _ ih => exact ih hi
  | look hi' _ ih =>
    rw [run_bind run_peek, run_bind run_peek, Stream.get_eq hi']
    exact ih hi
  | @take i f f' hi' hk _ ih =>
    have hlt : i < s.last := by
      simp only [Stream.last]
      omega
    rw [run_bind (run_advance hlt), run_bind (run_advance hlt), Stream.get_eq (by omega)]
    obtain ⟨heq, j, hij, hj, htaken, hend⟩ := ih hlt
    refine ⟨heq, j, by omega, hj, fun k hik hkj => ?_, hend⟩
    rcases Nat.eq_or_lt_of_le hik with rfl | hlt
    · rwa [Stream.kindAt, Stream.get_eq (by omega)]
    · exact htaken k hlt hkj
  | @close start i f f' hstart hi' _ ih =>
    rw [run_bind (run_originFrom start), run_bind (run_originFrom start)]
    rw [← originAt_eq hstart hi'] at ih
    exact ih hi
  | count _ ih => exact ih hi

theorem mono (h : InStep s Q i p p') (hQ : ∀ j a, Q j a → R j a) : InStep s R i p p' := by
  induction h with
  | done h => exact .done (hQ _ _ h)
  | stuck hi hc => exact .stuck hi hc
  | mark _ ih => exact .mark ih
  | look hi _ ih => exact .look hi ih
  | take hi hk _ ih => exact .take hi hk ih
  | close hstart hi _ ih => exact .close hstart hi ih
  | count _ ih => exact .count ih

theorem bind {S : Nat → β → Prop} {p p' : Parse β} (hp : InStep s S i p p')
    (hf : ∀ j b, S j b → InStep s Q j (f b) (f' b)) : InStep s Q i (p >>= f) (p' >>= f') := by
  induction hp with
  | done h => exact hf _ _ h
  | stuck hi hc => exact .stuck hi hc
  | mark _ ih =>
    rw [bind_assoc, bind_assoc]
    exact .mark ih
  | look hi _ ih =>
    rw [bind_assoc, bind_assoc]
    exact .look hi ih
  | take hi hk _ ih =>
    rw [bind_assoc, bind_assoc]
    exact .take hi hk ih
  | close hstart hi _ ih =>
    rw [bind_assoc, bind_assoc]
    exact .close hstart hi ih
  | count _ ih =>
    rw [bind_assoc, bind_assoc]
    exact .count ih

theorem bounded (h : InStep s Q i p p') (hi : i ≤ s.last) :
    InStep s (fun j a => i ≤ j ∧ j ≤ s.last ∧ Q j a) i p p' := by
  induction h with
  | done h => exact .done ⟨Nat.le_refl _, hi, h⟩
  | stuck hi' hc => exact .stuck hi' hc
  | mark _ ih => exact .mark (ih hi)
  | look hi' _ ih => exact .look hi' (ih hi)
  | @take i f f' hi' hk _ ih =>
    have hlt : i + 1 ≤ s.last := Stream.lt_size_iff.mp hi'
    exact .take hi' hk ((ih hlt).mono fun j a h => ⟨by omega, h.2⟩)
  | close hstart hi' _ ih => exact .close hstart hi' (ih hi)
  | count _ ih => exact .count (ih hi)

theorem advances (h : InStep s (fun j _ => i < j) i p p') (hi : i ≤ s.last) : Advances s p i := by
  intro a j hp
  obtain ⟨-, k, -, hk, htaken, ⟨b, hrun, hik⟩ | ⟨c, -, hrun⟩⟩ := h.run hi
  · rw [hrun] at hp
    cases hp
    exact ⟨hik, hk, htaken⟩
  · rw [hrun] at hp
    cases hp

end InStep

def Proceeds (s : Stream) (Q : Nat → α → Prop) (i : Nat) (p p' : Parse α) : Prop :=
  i ≤ s.last → InStep s Q i p p'

namespace Proceeds

open Parse

variable {s : Stream} {i : Nat} {p p' : Parse α} {f f' : β → Parse α} {Q R : Nat → α → Prop}

theorem pure {a : α} (h : Q i a) : Proceeds s Q i (pure a) (pure a) :=
  fun _ => .done h

theorem fail {c : Cause} (hc : c ≠ .tooDeep) : Proceeds s Q i (fail c) (fail c) :=
  fun hi => .stuck (Stream.lt_size_iff.mpr hi) hc

theorem beyond (hi : s.last < i) : Proceeds s Q i p p' :=
  fun hle => absurd hi (Nat.not_lt.mpr hle)

theorem mono (h : Proceeds s Q i p p') (hQ : ∀ j a, i ≤ j → Q j a → R j a) : Proceeds s R i p p' :=
  fun hi => ((h hi).bounded hi).mono fun j a h => hQ j a h.1 h.2.2

theorem bind {S : Nat → β → Prop} {p p' : Parse β} (hp : Proceeds s S i p p')
    (hf : ∀ j b, i ≤ j → S j b → Proceeds s Q j (f b) (f' b)) :
    Proceeds s Q i (p >>= f) (p' >>= f') :=
  fun hi => ((hp hi).bounded hi).bind fun j b h => hf j b h.1 h.2.2 h.2.1

theorem map {S : Nat → β → Prop} {p p' : Parse β} {c : β → α} (hp : Proceeds s S i p p')
    (h : ∀ j b, S j b → Q j (c b)) : Proceeds s Q i (c <$> p) (c <$> p') :=
  hp.bind fun j b _ hb => pure (h j b hb)

section Steps

theorem get_bind {f f' : Nat → Parse α} (h : Proceeds s Q i (f i) (f' i)) :
    Proceeds s Q i (get >>= f) (get >>= f') :=
  fun hi => .mark (h hi)

theorem rounds_bind {f f' : Nat → Parse α}
    (h : Proceeds s Q i (f (s.tokens.size + 1)) (f' (s.tokens.size + 1))) :
    Proceeds s Q i (rounds >>= f) (rounds >>= f') :=
  fun hi => .count (h hi)

theorem peek_bind {f f' : Token → Parse α} (h : Proceeds s Q i (f (s.get i)) (f' (s.get i))) :
    Proceeds s Q i (peek >>= f) (peek >>= f') := by
  intro hi
  have hsize := Stream.lt_size_iff.mpr hi
  rw [Stream.get_eq hsize] at h
  exact .look hsize (h hi)

theorem kind_bind {f f' : Kind → Parse α}
    (h : Proceeds s Q i (f (s.kindAt i)) (f' (s.kindAt i))) :
    Proceeds s Q i (kind >>= f) (kind >>= f') :=
  @peek_bind _ _ _ _ (fun t => f t.kind) (fun t => f' t.kind) h

theorem check_bind {f f' : Bool → Parse α} {k : Kind}
    (h : Proceeds s Q i (f (s.kindAt i == k)) (f' (s.kindAt i == k))) :
    Proceeds s Q i (check k >>= f) (check k >>= f') :=
  @peek_bind _ _ _ _ (fun t => f (t.kind == k)) (fun t => f' (t.kind == k)) h

theorem unexpected : Proceeds s Q i unexpected unexpected :=
  peek_bind (fail nofun)

theorem originFrom_bind {start : Nat} {f f' : Origin → Parse α} (hstart : start < i)
    (h : ∀ o, Proceeds s Q i (f o) (f' o)) :
    Proceeds s Q i (originFrom start >>= f) (originFrom start >>= f') :=
  fun hi => .close hstart (Stream.lt_size_iff.mpr hi) (h _ hi)

variable (hs : s.Closed)
include hs

theorem advance_bind {f f' : Token → Parse α} (hk : s.kindAt i ≠ .endOfInput)
    (h : Proceeds s Q (i + 1) (f (s.get i)) (f' (s.get i))) :
    Proceeds s Q i (advance >>= f) (advance >>= f') := by
  intro hi
  have hlt := hs.lt_last hk
  have hsize := Stream.lt_size_iff.mpr hi
  rw [Stream.kindAt, Stream.get_eq hsize] at hk
  rw [Stream.get_eq hsize] at h
  exact .take (Stream.lt_size_iff.mpr hlt) hk (h hlt)

theorem eat_bind {f f' : Bool → Parse α} {k : Kind} (hend : k ≠ .endOfInput)
    (htrue : s.kindAt i = k → Proceeds s Q (i + 1) (f true) (f' true))
    (hfalse : Proceeds s Q i (f false) (f' false)) :
    Proceeds s Q i (eat k >>= f) (eat k >>= f') := by
  unfold eat
  rw [bind_assoc, bind_assoc]
  refine check_bind ?_
  by_cases hk : s.kindAt i = k
  · simp only [hk, beq_self_eq_true, if_true, bind_assoc, pure_bind]
    exact advance_bind hs (hk ▸ hend) (htrue hk)
  · simp only [beq_false_of_ne hk, Bool.false_eq_true, if_false, pure_bind]
    exact hfalse

theorem expect_bind {f f' : Unit → Parse α} {c : Symbol} {what : Expectation}
    (h : Proceeds s Q (i + 1) (f ()) (f' ())) :
    Proceeds s Q i (expect c what >>= f) (expect c what >>= f') := by
  unfold expect checkSymbol
  rw [bind_assoc, bind_assoc]
  refine check_bind ?_
  by_cases hk : s.kindAt i = .symbol c
  · simp only [hk, beq_self_eq_true, if_true, bind_assoc, pure_bind]
    exact advance_bind hs (hk ▸ nofun) h
  · simp only [beq_false_of_ne hk, Bool.false_eq_true, if_false]
    exact fail nofun

theorem expectName (what : Expectation) :
    Proceeds s (fun j _ => i < j) i (expectName what) (expectName what) := by
  refine kind_bind ?_
  cases hk : s.kindAt i with
  | identifier name => exact advance_bind hs (hk ▸ nofun) (pure (Nat.lt_succ_self i))
  | _ => exact fail nofun

theorem expectPropertyName :
    Proceeds s (fun j _ => i < j) i expectPropertyName expectPropertyName := by
  refine peek_bind ?_
  have hend : (s.get i).kind ≠ .endOfInput → s.kindAt i ≠ .endOfInput := id
  cases hk : (s.get i).kind with
  | identifier | keyword => exact advance_bind hs (hend (hk ▸ nofun)) (pure (Nat.lt_succ_self i))
  | _ => exact fail nofun

theorem behind (k : Kind) {item item' : Parse α} (hend : k ≠ .endOfInput)
    (h : Proceeds s (fun _ _ => True) (i + 1) item item') :
    Proceeds s (fun _ _ => True) i (behind k item) (behind k item') := by
  refine eat_bind hs hend (fun _ => ?_) (pure trivial)
  exact h.map fun _ _ _ => trivial

omit hs in
theorem unlessAt {c : Symbol} {a : α} {item item' : Parse α}
    (h : Proceeds s (fun _ _ => True) i item item') :
    Proceeds s (fun _ _ => True) i (unlessAt c a item) (unlessAt c a item') := by
  refine check_bind ?_
  split
  · exact pure trivial
  · exact h

end Steps

section Loops

variable {item item' : Parse α} {m m' : Nat}

theorem manyUntil {stops : Kind → Bool}
    (hitem : ∀ k, i ≤ k → Proceeds s (fun j _ => k < j) k item item') (hm : s.last < i + m)
    (hm' : s.last < i + m') :
    Proceeds s (fun j _ => stops (s.kindAt j) = true) i (manyUntil stops item m)
      (manyUntil stops item' m') := by
  induction m generalizing i m' with
  | zero => exact beyond (by omega)
  | succ m ih =>
    cases m' with
    | zero => exact beyond (by omega)
    | succ m' =>
      refine kind_bind ?_
      split
      next hstops => exact pure hstops
      next =>
        refine (hitem i (Nat.le_refl i)).bind fun k x hik hk => ?_
        refine (ih (fun k' hk' => hitem k' (by omega)) (by omega) (by omega)).bind
          fun j xs _ hj => ?_
        exact pure hj

variable (hs : s.Closed)
include hs

theorem separated (hitem : ∀ k, i ≤ k → Proceeds s (fun j _ => k < j) k item item')
    (hm : s.last < i + m) (hm' : s.last < i + m') :
    Proceeds s (fun j _ => i < j) i (separated item m) (separated item' m') := by
  induction m generalizing i m' with
  | zero => exact beyond (by omega)
  | succ m ih =>
    cases m' with
    | zero => exact beyond (by omega)
    | succ m' =>
      refine (hitem i (Nat.le_refl i)).bind fun k x _ hk => eat_bind hs nofun (fun _ => ?_) ?_
      · refine (ih (fun k' hk' => hitem k' (by omega)) (by omega) (by omega)).bind
          fun j xs _ hj => ?_
        exact pure (by omega)
      · exact pure hk

theorem separatedBefore {close : Symbol}
    (hitem : ∀ k, i ≤ k → Proceeds s (fun j _ => k < j) k item item') :
    Proceeds s (fun _ _ => True) i (separatedBefore close item) (separatedBefore close item') := by
  refine unlessAt (rounds_bind ?_)
  have hlast := s.last_lt_rounds i
  exact (separated hs hitem hlast hlast).mono fun _ _ _ _ => trivial

theorem separatedUntil {close : Symbol}
    (hitem : ∀ k, i ≤ k → Proceeds s (fun j _ => k < j) k item item') (hm : s.last < i + m)
    (hm' : s.last < i + m') :
    Proceeds s (fun _ _ => True) i (separatedUntil close item m)
      (separatedUntil close item' m') := by
  induction m generalizing i m' with
  | zero => exact beyond (by omega)
  | succ m ih =>
    cases m' with
    | zero => exact beyond (by omega)
    | succ m' =>
      refine check_bind ?_
      split
      · exact pure trivial
      · refine (hitem i (Nat.le_refl i)).bind fun k x _ hk => eat_bind hs nofun (fun _ => ?_) ?_
        · refine (ih (fun k' hk' => hitem k' (by omega)) (by omega) (by omega)).bind
            fun _ _ _ _ => ?_
          exact pure trivial
        · exact pure trivial

omit hs in
theorem chain {step step' : α → Parse (Option α)} {a : α}
    (hstep : ∀ k x, i ≤ k → Proceeds s (fun j o => o.isSome → k < j) k (step x) (step' x))
    (hm : s.last < i + m) (hm' : s.last < i + m') :
    Proceeds s (fun _ _ => True) i (chain step m a) (chain step' m' a) := by
  induction m generalizing i m' a with
  | zero => exact beyond (by omega)
  | succ m ih =>
    cases m' with
    | zero => exact beyond (by omega)
    | succ m' =>
      refine (hstep i a (Nat.le_refl i)).bind fun k o _ hk => ?_
      cases o with
      | none => exact pure trivial
      | some b =>
        have hlt := hk rfl
        exact ih (fun k' x hk' => hstep k' x (by omega)) (by omega) (by omega)

end Loops

end Proceeds

end ScriptEngine
