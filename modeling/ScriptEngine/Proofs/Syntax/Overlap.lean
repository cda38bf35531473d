import ScriptEngine.Proofs.Layout.Programs
import ScriptEngine.Proofs.Syntax.Window

/-!
# Two streams with a stretch in common

The first tokens of one stream stand somewhere in another one. A reader of the first stream is
followed by a reader of the second: where it gives a result and has taken common tokens only, the
other one gives a result that looks the same, and where it fails at a common token, the other one
fails there for the same reason. What a reader comes to is settled by the tokens it takes and by the
one it looks at behind them, so at the end of the stretch there is a seam: two different tokens may
follow there, and nothing may be about to look at them.
-/

namespace ScriptEngine

open SyntaxError Token

namespace Token.Slice

def alone (s : Slice) : Slice where
  all := s.tokens.toArray
  start := 0
  stop := s.tokens.length
  start_le_stop := Nat.zero_le _
  stop_le_size := Nat.le_refl _

theorem tokens_alone (s : Slice) : s.alone.tokens = s.tokens := by
  change (s.tokens.toArray.extract 0 s.tokens.length).toList = s.tokens
  generalize s.tokens = ts
  simp

theorem text_alone (s : Slice) : s.alone.text = s.text := by
  rw [text, text, tokens_alone]

theorem alone_congr {s s' : Slice} (h : s'.tokens = s.tokens) : s'.alone = s.alone := by
  simp only [alone, h]

end Token.Slice

def Relocation.detach : Relocation :=
  { Relocation.stay with
    slice := Slice.alone
    text_slice := Slice.text_alone }

/-- The first tokens of a source stand in a copy. Readers of the whole stretch may end with it; then
either the same kind of token follows in both streams, or a semicolon is the last token of the
stretch and the two that follow are not told apart by a search for `else`. -/
structure Overlap where
  source : Stream
  copy : Stream
  place : Nat
  length : Nat
  whole : Prop
  closed : source.Closed
  fits : place + length ≤ copy.last
  agrees : ∀ x < length, copy.get (place + x) = source.get x
  seam : whole → copy.kindAt (place + length) = source.kindAt length ∨
    (∀ x, x + 1 = length → source.kindAt x = .symbol .semicolon) ∧
      (copy.kindAt (place + length) = .keyword .else_ ↔ source.kindAt length = .keyword .else_)

namespace Overlap

variable (W : Overlap)

abbrev inner : Overlap :=
  { W with whole := False, seam := False.elim }

def Covers (y : Nat) : Prop :=
  y < W.length ∨ W.whole ∧ y = W.length

/-- A search for a kind of token has the same outcome in both streams. -/
def ReadyFor (k : Kind) (x : Nat) : Prop :=
  W.whole → x = W.length → (W.copy.kindAt (W.place + x) = k ↔ W.source.kindAt x = k)

def Ready (x : Nat) : Prop :=
  W.whole → x = W.length → W.copy.kindAt (W.place + x) = W.source.kindAt x

variable {W} {x y z : Nat}

theorem Ready.readyFor (h : W.Ready x) (k : Kind) : W.ReadyFor k x :=
  fun hwhole hx => by rw [h hwhole hx]

theorem ready_inner (x : Nat) : W.inner.Ready x :=
  False.elim

theorem ready_succ (hx : W.source.kindAt x ≠ .symbol .semicolon) : W.Ready (x + 1) := by
  rintro hwhole hlength
  obtain hsame | ⟨hsemicolon, -⟩ := W.seam hwhole
  · rw [hlength]
    exact hsame
  · exact absurd (hsemicolon x hlength) hx

theorem readyFor_else (x : Nat) : W.ReadyFor (.keyword .else_) x := by
  rintro hwhole rfl
  obtain hsame | ⟨-, helse⟩ := W.seam hwhole
  · rw [hsame]
  · exact helse

theorem Covers.lt_length (h : W.Covers z) (hyz : y < z) : y < W.length := by
  rcases h with h | ⟨-, rfl⟩
  · omega
  · exact hyz

theorem Covers.le_length (h : W.Covers z) : z ≤ W.length := by
  rcases h with h | ⟨-, rfl⟩ <;> omega

theorem Covers.of_le (h : W.Covers z) (hyz : y ≤ z) : W.Covers y := by
  rcases Nat.lt_or_eq_of_le hyz with hlt | rfl
  · exact .inl (h.lt_length hlt)
  · exact h

theorem kindAt_copy (hx : x < W.length) : W.copy.kindAt (W.place + x) = W.source.kindAt x :=
  congrArg Token.kind (W.agrees x hx)

theorem kindAt_copy_of_covers (hready : W.Ready x) (hx : W.Covers x) :
    W.copy.kindAt (W.place + x) = W.source.kindAt x := by
  obtain hlt | ⟨hwhole, hlength⟩ := hx
  · exact kindAt_copy hlt
  · exact hready hwhole hlength

theorem beq_kindAt_copy {k : Kind} (hready : W.ReadyFor k x) (hx : W.Covers x) :
    (W.copy.kindAt (W.place + x) == k) = (W.source.kindAt x == k) := by
  obtain hlt | ⟨hwhole, hlength⟩ := hx
  · rw [kindAt_copy hlt]
  · rw [Bool.eq_iff_iff, beq_iff_eq, beq_iff_eq]
    exact hready hwhole hlength

theorem lt_last_copy (hx : x < W.length) : W.place + x < W.copy.last := by
  have := W.fits
  omega

theorem origin_copy {start : Nat} (hstart : start < x) (hx : x ≤ W.length)
    (hlast : x ≤ W.source.last) :
    Relocation.detach.origin (Parse.originAt W.copy (W.place + start) (W.place + x)) =
      Relocation.detach.origin (Parse.originAt W.source start x) := by
  have hfits := W.fits
  have hspan : Parse.spanFrom W.copy (W.place + start) (W.place + x) =
      Parse.spanFrom W.source start x := by
    have hprev : W.place + x - 1 = W.place + (x - 1) := by omega
    unfold Parse.spanFrom
    rw [if_pos hstart, if_pos (by omega), hprev, W.agrees start (by omega),
      W.agrees (x - 1) (by omega)]
  have htokens : (Slice.clamp W.copy.tokens (W.place + start) (W.place + x)).tokens =
      (Slice.clamp W.source.tokens start x).tokens := by
    rw [Stream.tokens_clamp _ _ (show W.place + x ≤ W.copy.last by omega),
      Stream.tokens_clamp _ _ hlast, Nat.add_sub_add_left]
    apply List.ext_getElem (by simp)
    intro i hi hi'
    simp only [List.length_map, List.length_range'] at hi
    simp only [List.getElem_map, List.getElem_range', Nat.one_mul, Nat.add_assoc]
    exact W.agrees (start + i) (by omega)
  simp only [Relocation.origin, Relocation.detach, Parse.originAt, hspan, Slice.alone_congr htokens]

end Overlap

variable {α β : Type}

/-- The run of `p` at an index of the source is followed by a run of `p'` at that place of the copy.
Common tokens taken give results that satisfy `Q`, and a fault at a common token is one of both
streams, unless it is due to a bound. -/
def Follows (W : Overlap) (x : Nat) (p p' : Parse α) (Q : Nat → α → α → Prop) : Prop :=
  x ≤ W.source.last →
    (∃ a a' y, p W.source x = .ok (a, y) ∧ x ≤ y ∧ y ≤ W.source.last ∧ Q y a a' ∧
      (W.Covers y → p' W.copy (W.place + x) = .ok (a', W.place + y))) ∨
    ∃ c k, p W.source x = .error (.atToken c (W.source.get k)) ∧ x ≤ k ∧ k ≤ W.source.last ∧
      c.code.category = .grammatical ∧
      (k < W.length → c ≠ .tooDeep →
        p' W.copy (W.place + x) = .error (.atToken c (W.source.get k)))

namespace Follows

open Parse Overlap

variable {W : Overlap} {x : Nat} {p p' q q' : Parse α} {f f' : β → Parse α}
  {Q R : Nat → α → α → Prop}

theorem congr (h : Follows W x q q' Q) (hp : p W.source x = q W.source x)
    (hp' : p' W.copy (W.place + x) = q' W.copy (W.place + x)) : Follows W x p p' Q := by
  rwa [Follows, hp, hp']

theorem pure {a a' : α} (h : Q x a a') : Follows W x (pure a) (pure a') Q :=
  fun hlast => .inl ⟨a, a', x, rfl, Nat.le_refl x, hlast, h, fun _ => rfl⟩

theorem fail {c : Cause} (hc : c.code.category = .grammatical) :
    Follows W x (fail c) (Parse.fail c) Q := by
  refine fun hlast => .inr ⟨c, x, rfl, Nat.le_refl x, hlast, hc, fun hx _ => ?_⟩
  rw [← W.agrees x hx]
  rfl

theorem exhausted : Follows W x (Parse.fail .tooDeep) p' Q :=
  fun hlast => .inr ⟨.tooDeep, x, rfl, Nat.le_refl x, hlast, rfl, fun _ h => absurd rfl h⟩

theorem mono (h : Follows W x p p' Q) (hQ : ∀ y a a', x ≤ y → Q y a a' → R y a a') :
    Follows W x p p' R := by
  intro hlast
  obtain ⟨a, a', y, hrun, hxy, hy, hq, hrun'⟩ | hfault := h hlast
  · exact .inl ⟨a, a', y, hrun, hxy, hy, hQ y a a' hxy hq, hrun'⟩
  · exact .inr hfault

theorem beyond (hx : W.length < x) (h : Follows W x p p' Q) : Follows W x p q' Q := by
  intro hlast
  obtain ⟨a, a', y, hrun, hxy, hy, hq, -⟩ | ⟨c, k, hrun, hxk, hk, hc, -⟩ := h hlast
  · refine .inl ⟨a, a', y, hrun, hxy, hy, hq, fun hcovers => ?_⟩
    have := hcovers.le_length
    omega
  · exact .inr ⟨c, k, hrun, hxk, hk, hc, by omega⟩

theorem bind {S : Nat → β → β → Prop} {p p' : Parse β} (hp : Follows W x p p' S)
    (hf : ∀ y b b', x ≤ y → S y b b' → Follows W y (f b) (f' b') Q) :
    Follows W x (p >>= f) (p' >>= f') Q := by
  intro hlast
  obtain ⟨b, b', y, hb, hxy, hy, hs, hb'⟩ | ⟨c, k, hrun, hxk, hk, hc, hrun'⟩ := hp hlast
  · obtain ⟨a, a', z, ha, hyz, hz, hq, ha'⟩ | ⟨c, k, hrun, hyk, hk, hc, hrun'⟩ :=
      hf y b b' hxy hs hy
    · refine .inl ⟨a, a', z, (run_bind hb).trans ha, by omega, hz, hq, fun hcovers => ?_⟩
      exact (run_bind (hb' (hcovers.of_le hyz))).trans (ha' hcovers)
    · refine .inr ⟨c, k, (run_bind hb).trans hrun, by omega, hk, hc, fun hlt hdeep => ?_⟩
      exact (run_bind (hb' (.inl (by omega)))).trans (hrun' hlt hdeep)
  · refine .inr ⟨c, k, by rw [bind_apply, hrun]; rfl, hxk, hk, hc, fun hlt hdeep => ?_⟩
    rw [bind_apply, hrun' hlt hdeep]
    rfl

/-- When a token is taken afterwards, the first part ends before the end of the stretch. -/
theorem bind_of_lt {S : Nat → β → β → Prop} {p p' : Parse β} (hp : Follows W.inner x p p' S)
    (hf : ∀ y b b', x ≤ y → S y b b' → Follows W y (f b) (f' b') fun z a a' => y < z ∧ Q z a a') :
    Follows W x (p >>= f) (p' >>= f') Q := by
  intro hlast
  obtain ⟨b, b', y, hb, hxy, hy, hs, hb'⟩ | ⟨c, k, hrun, hxk, hk, hc, hrun'⟩ := hp hlast
  · obtain ⟨a, a', z, ha, hyz, hz, ⟨hlt, hq⟩, ha'⟩ | ⟨c, k, hrun, hyk, hk, hc, hrun'⟩ :=
      hf y b b' hxy hs hy
    · refine .inl ⟨a, a', z, (run_bind hb).trans ha, by omega, hz, hq, fun hcovers => ?_⟩
      exact (run_bind (hb' (.inl (hcovers.lt_length hlt)))).trans (ha' hcovers)
    · refine .inr ⟨c, k, (run_bind hb).trans hrun, by omega, hk, hc, fun hlt hdeep => ?_⟩
      have hy' : y < W.length := by omega
      exact (run_bind (hb' (.inl hy'))).trans (hrun' hlt hdeep)
  · refine .inr ⟨c, k, by rw [bind_apply, hrun]; rfl, hxk, hk, hc, fun hlt hdeep => ?_⟩
    rw [bind_apply]
    exact congrArg (Except.bind · _) (hrun' hlt hdeep)

theorem map {S : Nat → β → β → Prop} {p p' : Parse β} {c : β → α} (hp : Follows W x p p' S)
    (h : ∀ y b b', x ≤ y → S y b b' → Q y (c b) (c b')) : Follows W x (c <$> p) (c <$> p') Q :=
  hp.bind fun y b b' hxy hs => pure (h y b b' hxy hs)

section Steps

theorem get_bind {f f' : Nat → Parse α} (h : Follows W x (f x) (f' (W.place + x)) Q) :
    Follows W x (get >>= f) (get >>= f') Q :=
  h.congr (run_bind run_get) (run_bind run_get)

theorem rounds_bind {f f' : Nat → Parse α}
    (h : Follows W x (f (W.source.tokens.size + 1)) (f' (W.copy.tokens.size + 1)) Q) :
    Follows W x (rounds >>= f) (rounds >>= f') Q :=
  h.congr (run_bind run_rounds) (run_bind run_rounds)

theorem look {step : Parse β} {f f' : β → Parse α} {b b' : β}
    (hstep : step W.source x = .ok (b, x))
    (hstep' : step W.copy (W.place + x) = .ok (b', W.place + x)) (hb : W.Covers x → b' = b)
    (h : Follows W x (f b) (f' b) Q) : Follows W x (step >>= f) (step >>= f') Q := by
  intro hlast
  obtain ⟨a, a', y, hrun, hxy, hy, hq, hrun'⟩ | ⟨c, k, hrun, hxk, hk, hc, hrun'⟩ := h hlast
  · refine .inl ⟨a, a', y, (run_bind hstep).trans hrun, hxy, hy, hq, fun hcovers => ?_⟩
    rw [run_bind hstep', hb (hcovers.of_le hxy)]
    exact hrun' hcovers
  · refine .inr ⟨c, k, (run_bind hstep).trans hrun, hxk, hk, hc, fun hlt hdeep => ?_⟩
    rw [run_bind hstep', hb (.inl (by omega))]
    exact hrun' hlt hdeep

/-- If the token is taken afterwards, it has to look the same only as a common token. -/
theorem look_of_lt {step : Parse β} {f f' : β → Parse α} {b b' : β}
    (hstep : step W.source x = .ok (b, x))
    (hstep' : step W.copy (W.place + x) = .ok (b', W.place + x)) (hb : x < W.length → b' = b)
    (h : Follows W x (f b) (f' b) fun z a a' => x < z ∧ Q z a a') :
    Follows W x (step >>= f) (step >>= f') fun z a a' => x < z ∧ Q z a a' := by
  by_cases hx : x < W.length
  · exact look hstep hstep' (fun _ => hb hx) h
  · intro hlast
    obtain ⟨a, a', y, hrun, hxy, hy, hq, -⟩ | ⟨c, k, hrun, hxk, hk, hc, -⟩ := h hlast
    · exact .inl ⟨a, a', y, (run_bind hstep).trans hrun, hxy, hy, hq,
        fun hcovers => absurd (hcovers.lt_length hq.1) hx⟩
    · exact .inr ⟨c, k, (run_bind hstep).trans hrun, hxk, hk, hc, by omega⟩

theorem kind_bind {f f' : Kind → Parse α} (hready : W.Ready x)
    (h : Follows W x (f (W.source.kindAt x)) (f' (W.source.kindAt x)) Q) :
    Follows W x (kind >>= f) (kind >>= f') Q :=
  look run_kind run_kind (kindAt_copy_of_covers hready) h

theorem check_bind {f f' : Bool → Parse α} {k : Kind} (hready : W.ReadyFor k x)
    (h : Follows W x (f (W.source.kindAt x == k)) (f' (W.source.kindAt x == k)) Q) :
    Follows W x (check k >>= f) (check k >>= f') Q :=
  look (run_check k) (run_check k) (beq_kindAt_copy hready) h

theorem peek_bind {f f' : Token → Parse α}
    (h : Follows W x (f (W.source.get x)) (f' (W.source.get x)) fun z a a' => x < z ∧ Q z a a') :
    Follows W x (peek >>= f) (peek >>= f') fun z a a' => x < z ∧ Q z a a' :=
  look_of_lt run_peek run_peek (W.agrees x) h

theorem kind_bind_of_lt {f f' : Kind → Parse α}
    (h : Follows W x (f (W.source.kindAt x)) (f' (W.source.kindAt x)) fun z a a' =>
      x < z ∧ Q z a a') :
    Follows W x (kind >>= f) (kind >>= f') fun z a a' => x < z ∧ Q z a a' :=
  look_of_lt run_kind run_kind kindAt_copy h

theorem unexpected : Follows W x unexpected unexpected fun z a a' => x < z ∧ Q z a a' :=
  peek_bind (fail rfl)

theorem advance_bind {f f' : Token → Parse α} (hk : W.source.kindAt x ≠ .endOfInput)
    (h : Follows W (x + 1) (f (W.source.get x)) (f' (W.source.get x)) Q) :
    Follows W x (advance >>= f) (advance >>= f') Q := by
  intro hlast
  have hi := W.closed.lt_last hk
  have hadvance := run_advance hi
  obtain ⟨a, a', y, hrun, hxy, hy, hq, hrun'⟩ | ⟨c, k, hrun, hxk, hk, hc, hrun'⟩ := h hi
  · refine .inl ⟨a, a', y, (run_bind hadvance).trans hrun, by omega, hy, hq, fun hcovers => ?_⟩
    have hx : x < W.length := hcovers.lt_length (by omega)
    rw [run_bind (run_advance (lt_last_copy hx)), W.agrees x hx]
    exact hrun' hcovers
  · refine .inr ⟨c, k, (run_bind hadvance).trans hrun, by omega, hk, hc, fun hlt hdeep => ?_⟩
    have hx : x < W.length := by omega
    rw [run_bind (run_advance (lt_last_copy hx)), W.agrees x hx]
    exact hrun' hlt hdeep

theorem eat_bind {f f' : Bool → Parse α} {k : Kind} (hend : k ≠ .endOfInput)
    (hready : W.ReadyFor k x)
    (htrue : W.source.kindAt x = k → Follows W (x + 1) (f true) (f' true) Q)
    (hfalse : W.source.kindAt x ≠ k → Follows W x (f false) (f' false) Q) :
    Follows W x (eat k >>= f) (eat k >>= f') Q := by
  unfold eat
  rw [bind_assoc, bind_assoc]
  refine check_bind hready ?_
  by_cases hk : W.source.kindAt x = k
  · simp only [hk, beq_self_eq_true, if_true, bind_assoc, pure_bind]
    exact advance_bind (hk ▸ hend) (htrue hk)
  · simp only [beq_false_of_ne hk, Bool.false_eq_true, if_false, pure_bind]
    exact hfalse hk

/-- If something is taken in any case, the token has to look the same only as a common token. -/
theorem eat_bind_of_lt {f f' : Bool → Parse α} {k : Kind} (hend : k ≠ .endOfInput)
    (htrue : W.source.kindAt x = k →
      Follows W (x + 1) (f true) (f' true) fun z a a' => x < z ∧ Q z a a')
    (hfalse : Follows W x (f false) (f' false) fun z a a' => x < z ∧ Q z a a') :
    Follows W x (eat k >>= f) (eat k >>= f') fun z a a' => x < z ∧ Q z a a' := by
  unfold eat
  rw [bind_assoc, bind_assoc]
  refine look_of_lt (run_check k) (run_check k) (fun hx => by rw [kindAt_copy hx]) ?_
  by_cases hk : W.source.kindAt x = k
  · simp only [hk, beq_self_eq_true, if_true, bind_assoc, pure_bind]
    exact advance_bind (hk ▸ hend) (htrue hk)
  · simp only [beq_false_of_ne hk, Bool.false_eq_true, if_false, pure_bind]
    exact hfalse

theorem expect_bind {f f' : Unit → Parse α} {c : Symbol} {what : Expectation}
    (h : W.source.kindAt x = .symbol c → Follows W (x + 1) (f ()) (f' ()) Q) :
    Follows W x (expect c what >>= f) (expect c what >>= f') Q := by
  suffices htaken : Follows W x (expect c what >>= f) (expect c what >>= f')
      fun z a a' => x < z ∧ Q z a a' from htaken.mono fun _ _ _ _ hq => hq.2
  unfold expect checkSymbol
  rw [bind_assoc, bind_assoc]
  refine look_of_lt (run_check _) (run_check _) (fun hx => by rw [kindAt_copy hx]) ?_
  by_cases hk : W.source.kindAt x = .symbol c
  · simp only [hk, beq_self_eq_true, if_true, bind_assoc, pure_bind]
    exact advance_bind (hk ▸ nofun) ((h hk).mono fun z _ _ hz hq => ⟨by omega, hq⟩)
  · simp only [beq_false_of_ne hk, Bool.false_eq_true, if_false]
    exact fail rfl

theorem originFrom_bind {start : Nat} {f f' : Origin → Parse α} (hstart : start < x)
    (h : ∀ o o', Relocation.detach.origin o' = Relocation.detach.origin o →
      Follows W x (f o) (f' o') Q) :
    Follows W x (originFrom start >>= f) (originFrom (W.place + start) >>= f') Q := by
  by_cases hx : x ≤ W.length
  · intro hlast
    exact (h _ _ (origin_copy hstart hx hlast)).congr (run_bind (run_originFrom start))
      (run_bind (run_originFrom _)) hlast
  · have hsource := (h (originAt W.source start x) _ rfl).congr
      (run_bind (run_originFrom start)) rfl
    exact beyond (Nat.lt_of_not_le hx) hsource

theorem expectName (what : Expectation) :
    Follows W x (expectName what) (expectName what) fun y a a' => x < y ∧ W.Ready y ∧ a' = a := by
  refine kind_bind_of_lt ?_
  cases hk : W.source.kindAt x with
  | identifier name =>
    refine advance_bind (hk ▸ nofun) (pure ⟨Nat.lt_succ_self x, ready_succ (hk ▸ nofun), rfl⟩)
  | _ => exact fail rfl

theorem expectPropertyName :
    Follows W x expectPropertyName expectPropertyName
      fun y a a' => x < y ∧ W.Ready y ∧ a' = a := by
  refine peek_bind ?_
  have hkind : W.source.kindAt x = (W.source.get x).kind := rfl
  cases hk : (W.source.get x).kind with
  | identifier | keyword =>
    rw [hk] at hkind
    refine advance_bind (hkind ▸ nofun) (pure ⟨Nat.lt_succ_self x, ready_succ (hkind ▸ nofun), rfl⟩)
  | _ => exact fail rfl

theorem unlessAt {c : Symbol} {a a' : α} {item item' : Parse α} (hready : W.Ready x)
    (ha : Q x a a') (h : Follows W x item item' Q) :
    Follows W x (unlessAt c a item) (unlessAt c a' item') Q := by
  refine check_bind (hready.readyFor _) ?_
  split
  · exact pure ha
  · exact h

theorem behind {item item' : Parse α} {view : α → β} {k : Kind} {P : Nat → Prop}
    (hend : k ≠ .endOfInput) (hready : W.ReadyFor k x) (hx : P x)
    (h : W.source.kindAt x = k →
      Follows W (x + 1) item item' fun y a a' => P y ∧ view a' = view a) :
    Follows W x (behind k item) (behind k item') fun y o o' => P y ∧ o'.map view = o.map view := by
  refine eat_bind hend hready (fun hk => ?_) fun _ => pure ⟨hx, rfl⟩
  exact (h hk).map fun y a a' _ ha => ⟨ha.1, congrArg some ha.2⟩

end Steps

section Loops

variable {item item' : Parse α} {view : α → β} {m m' : Nat}

theorem length_lt_rounds (W : Overlap) (x : Nat) : W.length < x + (W.copy.tokens.size + 1) := by
  have := W.fits
  simp only [Stream.last] at this
  omega

theorem manyUntil {stops : Kind → Bool} (hready : ∀ y, W.Ready y)
    (hitem : ∀ y, x ≤ y → Follows W y item item' fun z a a' => y < z ∧ view a' = view a)
    (hx : W.length < x + m') :
    Follows W x (manyUntil stops item m) (manyUntil stops item' m')
      fun _ as as' => as'.map view = as.map view := by
  refine Mirrors.round_induction (P := fun m m' z => x ≤ z → Follows W z
    (Parse.manyUntil stops item m) (Parse.manyUntil stops item' m')
    fun _ as as' => as'.map view = as.map view) ?_ ?_ ?_ m m' x hx (Nat.le_refl x)
  · exact fun m' z _ => exhausted
  · intro m m' z ih hz
    refine kind_bind (hready z) ?_
    split
    · exact pure rfl
    · refine (hitem z hz).bind fun y a a' _ ha => ?_
      refine (ih y ha.1 (by omega)).bind fun w as as' _ has => pure ?_
      rw [List.map_cons, List.map_cons, ha.2, has]
  · exact fun m z hz h hxz => (h hxz).beyond hz

theorem separated
    (hitem : ∀ y, x ≤ y → Follows W y item item' fun z a a' =>
      y < z ∧ W.Ready z ∧ view a' = view a)
    (hx : W.length < x + m') :
    Follows W x (separated item m) (separated item' m') fun y as as' =>
      x < y ∧ W.Ready y ∧ as'.map view = as.map view := by
  refine Mirrors.round_induction (P := fun m m' z => x ≤ z → Follows W z
    (Parse.separated item m) (Parse.separated item' m')
    fun y as as' => z < y ∧ W.Ready y ∧ as'.map view = as.map view) ?_ ?_ ?_ m m' x hx
    (Nat.le_refl x)
  · exact fun m' z _ => exhausted
  · intro m m' z ih hz
    refine (hitem z hz).bind fun y a a' _ ⟨hzy, hy, ha⟩ => ?_
    refine eat_bind nofun (hy.readyFor _) (fun _ => ?_) fun _ => ?_
    · refine (ih (y + 1) (by omega) (by omega)).bind fun w as as' _ has => pure ?_
      exact ⟨by omega, has.2.1, by rw [List.map_cons, List.map_cons, ha, has.2.2]⟩
    · exact pure ⟨hzy, hy, by rw [List.map_cons, List.map_cons, ha]⟩
  · exact fun m z hz h hxz => (h hxz).beyond hz

theorem separatedBefore {close : Symbol}
    (hitem : ∀ y, x ≤ y → Follows W y item item' fun z a a' =>
      y < z ∧ W.Ready z ∧ view a' = view a)
    (hready : W.Ready x) :
    Follows W x (separatedBefore close item) (separatedBefore close item') fun y as as' =>
      W.Ready y ∧ as'.map view = as.map view := by
  refine unlessAt hready ⟨hready, rfl⟩ (rounds_bind ?_)
  exact (separated hitem (length_lt_rounds W x)).mono fun _ _ _ _ h => h.2

theorem separatedUntil {close : Symbol}
    (hitem : ∀ y, x ≤ y → Follows W y item item' fun z a a' =>
      y < z ∧ W.Ready z ∧ view a' = view a)
    (hready : W.Ready x) (hx : W.length < x + m') :
    Follows W x (separatedUntil close item m) (separatedUntil close item' m') fun y as as' =>
      W.Ready y ∧ as'.map view = as.map view := by
  refine Mirrors.round_induction (P := fun m m' z => x ≤ z → W.Ready z → Follows W z
    (Parse.separatedUntil close item m) (Parse.separatedUntil close item' m')
    fun y as as' => W.Ready y ∧ as'.map view = as.map view) ?_ ?_ ?_ m m' x hx
    (Nat.le_refl x) hready
  · exact fun m' z _ _ => exhausted
  · intro m m' z ih hz hready
    refine check_bind (hready.readyFor _) ?_
    split
    · exact pure ⟨hready, rfl⟩
    · refine (hitem z hz).bind fun y a a' _ ⟨hzy, hy, ha⟩ => ?_
      refine eat_bind nofun (hy.readyFor _) (fun hk => ?_) fun _ => ?_
      · have hready : W.Ready (y + 1) := ready_succ (hk ▸ nofun)
        refine (ih (y + 1) (by omega) (by omega) hready).bind fun w as as' _ has => pure ?_
        exact ⟨has.1, by rw [List.map_cons, List.map_cons, ha, has.2]⟩
      · exact pure ⟨hy, by rw [List.map_cons, List.map_cons, ha]⟩
  · exact fun m z hz h hxz hready => (h hxz hready).beyond hz

theorem chain {step step' : α → Parse (Option α)} {a a' : α}
    (hstep : ∀ y a a', x ≤ y → Q y a a' → Follows W y (step a) (step' a') (Mirrors.Links y Q))
    (hx : W.length < x + m') (ha : Q x a a') :
    Follows W x (chain step m a) (chain step' m' a') Q := by
  refine Mirrors.round_induction (P := fun m m' z => x ≤ z → ∀ a a', Q z a a' →
    Follows W z (Parse.chain step m a) (Parse.chain step' m' a') Q) ?_ ?_ ?_ m m' x hx
    (Nat.le_refl x) a a' ha
  · exact fun m' z _ a a' _ => exhausted
  · intro m m' z ih hz a a' ha
    refine (hstep z a a' hz ha).bind fun y o o' _ hlinks => ?_
    cases hlinks with
    | done => exact pure ha
    | more hy hb => exact ih y hy (by omega) _ _ hb
  · exact fun m z hz h hxz a a' ha => (h hxz a a' ha).beyond hz

end Loops

end Follows

end ScriptEngine
