import Mathlib.Data.List.Forall2
import ScriptEngine.Proofs.Syntax.Run
import ScriptEngine.Proofs.Token.Streams
import ScriptEngine.Syntax.Print

/-!
# Two streams side by side

A stretch of one stream stands word for word in another one, where the input ends behind it or a
parenthesis closes. A reader of the source is mirrored by a reader of the copy when every run of the
first that stays in the stretch is a run of the second, with related results. Whatever looks at the
token behind the stretch has to stop there in the copy; a reader that goes on in the source has left
the stretch, and nothing is asked of it any more.
-/

namespace ScriptEngine

open SyntaxError Token

/-- A stretch of a source with its place in a copy. -/
structure Window where
  source : Stream
  copy : Stream
  base : Nat
  place : Nat
  length : Nat
  regular : source.Regular
  fits : place + length ≤ copy.last
  agrees : ∀ x < length, (copy.get (place + x)).word = (source.get (base + x)).word
  stops : copy.kindAt (place + length) = .endOfInput ∨
    copy.kindAt (place + length) = .symbol .closeParen

namespace Window

def alone (s : Stream) (h : s.Regular) (base : Nat) : Window where
  source := s
  copy := s
  base := base
  place := s.last
  length := 0
  regular := h
  fits := Nat.le_refl _
  agrees := nofun
  stops := .inl h.ends

variable (W : Window)

def stop : Kind :=
  W.copy.kindAt (W.place + W.length)

def Covers (whole : Prop) (y : Nat) : Prop :=
  y < W.length ∨ whole ∧ y = W.length

variable {W} {whole : Prop} {x y z : Nat}

theorem Covers.of_le (h : W.Covers whole z) (hyz : y ≤ z) : W.Covers whole y := by
  rcases h with h | ⟨hwhole, rfl⟩
  · exact .inl (by omega)
  · rcases Nat.lt_or_eq_of_le hyz with hy | rfl
    · exact .inl hy
    · exact .inr ⟨hwhole, rfl⟩

theorem Covers.lt_length (h : W.Covers whole z) (hyz : y < z) : y < W.length := by
  rcases h with h | ⟨-, rfl⟩
  · omega
  · exact hyz

theorem Covers.le_length (h : W.Covers whole z) : z ≤ W.length := by
  rcases h with h | ⟨-, rfl⟩ <;> omega

theorem copy_kindAt (hx : x < W.length) :
    W.copy.kindAt (W.place + x) = W.source.kindAt (W.base + x) :=
  congrArg Prod.fst (W.agrees x hx)

theorem lt_last_copy (hx : x < W.length) : W.place + x < W.copy.last := by
  have := W.fits
  omega

theorem lt_last_source {i : Nat} (h : W.source.kindAt i ≠ .endOfInput) : i < W.source.last := by
  refine Nat.lt_of_not_le fun hi => h (Eq.trans ?_ W.regular.ends)
  simp only [Stream.kindAt, Stream.get, Nat.min_self, Nat.min_eq_right hi]

theorem stop_ne {k : Kind} (hend : k ≠ .endOfInput) (hclose : k ≠ .symbol .closeParen) :
    W.stop ≠ k := by
  rcases W.stops with h | h
  · exact fun hk => hend (hk.symm.trans h)
  · exact fun hk => hclose (hk.symm.trans h)

theorem copy_kindAt_ne {k : Kind} (hend : k ≠ .endOfInput) (hclose : k ≠ .symbol .closeParen)
    (hx : x ≤ W.length) (hk : W.source.kindAt (W.base + x) ≠ k) :
    W.copy.kindAt (W.place + x) ≠ k := by
  rcases Nat.lt_or_eq_of_le hx with hx | rfl
  · rwa [copy_kindAt hx]
  · exact stop_ne hend hclose

end Window

variable {α β : Type}

/-- Every run of `p` at `x` is a run of `p'` at the same place of the copy, with related results, as
long as it stays in the stretch. -/
def Mirrors (W : Window) (whole : Prop) (x : Nat) (p p' : Parse α)
    (Q : Nat → α → α → Prop) : Prop :=
  ∀ a j, W.base + x ≤ W.source.last → p W.source (W.base + x) = .ok (a, j) →
    ∃ y a', j = W.base + y ∧ x ≤ y ∧ W.base + y ≤ W.source.last ∧ Q y a a' ∧
      (W.Covers whole y → p' W.copy (W.place + x) = .ok (a', W.place + y))

namespace Mirrors

open Parse Window

theorem kind_of_expect {c : Symbol} {what : Expectation} {s : Stream} {i j : Nat} {u : Unit}
    (h : expect c what s i = .ok (u, j)) : s.kindAt i = .symbol c := by
  by_cases hk : s.kindAt i = .symbol c
  · exact hk
  · unfold expect checkSymbol at h
    rw [run_bind (run_check _), if_neg (by simp [hk])] at h
    exact absurd h (run_fail_ne_ok _ _)

variable {W : Window} {whole : Prop} {x : Nat} {p p' q q' : Parse α} {f f' : β → Parse α}
  {Q R : Nat → α → α → Prop}

theorem pure {a a' : α} (h : Q x a a') : Mirrors W whole x (pure a) (pure a') Q := by
  intro b j hlast hrun
  cases hrun
  exact ⟨x, a', rfl, Nat.le_refl x, hlast, h, fun _ => rfl⟩

theorem of_ne_ok (h : ∀ r, p W.source (W.base + x) ≠ .ok r) : Mirrors W whole x p p' Q :=
  fun a j _ hrun => absurd hrun (h (a, j))

theorem congr (h : Mirrors W whole x q q' Q)
    (hp : p W.source (W.base + x) = q W.source (W.base + x))
    (hp' : p' W.copy (W.place + x) = q' W.copy (W.place + x)) : Mirrors W whole x p p' Q := by
  intro a j hlast hrun
  rw [hp] at hrun
  rw [hp']
  exact h a j hlast hrun

theorem mono (h : Mirrors W whole x p p' Q) (hQ : ∀ y a a', x ≤ y → Q y a a' → R y a a') :
    Mirrors W whole x p p' R := by
  intro a j hlast hrun
  obtain ⟨y, a', hj, hxy, hy, hq, hrun'⟩ := h a j hlast hrun
  exact ⟨y, a', hj, hxy, hy, hQ y a a' hxy hq, hrun'⟩

theorem and_run (h : Mirrors W whole x p p' Q) :
    Mirrors W whole x p p' fun y a a' =>
      p W.source (W.base + x) = .ok (a, W.base + y) ∧ W.base + y ≤ W.source.last ∧ Q y a a' := by
  intro a j hlast hrun
  obtain ⟨y, a', rfl, hxy, hy, hq, hrun'⟩ := h a j hlast hrun
  exact ⟨y, a', rfl, hxy, hy, ⟨hrun, hy, hq⟩, hrun'⟩

theorem beyond (hx : W.length < x) (h : Mirrors W whole x p p' Q) : Mirrors W whole x p q' Q := by
  intro a j hlast hrun
  obtain ⟨y, a', hj, hxy, hy, hq, -⟩ := h a j hlast hrun
  refine ⟨y, a', hj, hxy, hy, hq, fun hcovers => ?_⟩
  have := hcovers.le_length
  omega

theorem bind {S : Nat → β → β → Prop} {p p' : Parse β} (hp : Mirrors W whole x p p' S)
    (hf : ∀ y b b', x ≤ y → S y b b' → Mirrors W whole y (f b) (f' b') Q) :
    Mirrors W whole x (p >>= f) (p' >>= f') Q := by
  intro a j hlast hrun
  obtain ⟨b, k, hb, hrun⟩ := of_run_bind hrun
  obtain ⟨y, b', rfl, hxy, hy, hs, hb'⟩ := hp b k hlast hb
  obtain ⟨z, a', hj, hyz, hzlast, hq, ha'⟩ := hf y b b' hxy hs a j hy hrun
  refine ⟨z, a', hj, by omega, hzlast, hq, fun hz => ?_⟩
  rw [run_bind (hb' (hz.of_le hyz))]
  exact ha' hz

/-- When something is taken afterwards, the first part ends before the end of the stretch. -/
theorem bind_of_lt {S : Nat → β → β → Prop} {p p' : Parse β} (hp : Mirrors W False x p p' S)
    (hf : ∀ y b b', x ≤ y → S y b b' →
      Mirrors W whole y (f b) (f' b') fun z a a' => y < z ∧ Q z a a') :
    Mirrors W whole x (p >>= f) (p' >>= f') Q := by
  intro a j hlast hrun
  obtain ⟨b, k, hb, hrun⟩ := of_run_bind hrun
  obtain ⟨y, b', rfl, hxy, hy, hs, hb'⟩ := hp b k hlast hb
  obtain ⟨z, a', hj, hyz, hzlast, ⟨hlt, hq⟩, ha'⟩ := hf y b b' hxy hs a j hy hrun
  refine ⟨z, a', hj, by omega, hzlast, hq, fun hz => ?_⟩
  rw [run_bind (hb' (.inl (hz.lt_length hlt)))]
  exact ha' hz

theorem map {S : Nat → β → β → Prop} {p p' : Parse β} {c : β → α} (hp : Mirrors W whole x p p' S)
    (h : ∀ y b b', S y b b' → Q y (c b) (c b')) : Mirrors W whole x (c <$> p) (c <$> p') Q :=
  hp.bind fun y b b' _ hs => pure (h y b b' hs)

section Steps

theorem get_bind {f f' : Nat → Parse α}
    (h : Mirrors W whole x (f (W.base + x)) (f' (W.place + x)) Q) :
    Mirrors W whole x (get >>= f) (get >>= f') Q :=
  h.congr (run_bind run_get) (run_bind run_get)

theorem rounds_bind {f f' : Nat → Parse α}
    (h : Mirrors W whole x (f (W.source.tokens.size + 1)) (f' (W.copy.tokens.size + 1)) Q) :
    Mirrors W whole x (rounds >>= f) (rounds >>= f') Q :=
  h.congr (run_bind run_rounds) (run_bind run_rounds)

theorem originFrom_bind {f f' : Origin → Parse α} {start start' : Nat}
    (h : ∀ o', Mirrors W whole x (f (originAt W.source start (W.base + x))) (f' o') Q) :
    Mirrors W whole x (originFrom start >>= f) (originFrom start' >>= f') Q :=
  (h _).congr (run_bind (run_originFrom start)) (run_bind (run_originFrom start'))

/-- Looking at a token: in the copy the end of the stretch has to look the same to what follows,
unless that takes a token. -/
theorem kind_bind {f f' : Kind → Parse α} {k : Kind} (hk : W.source.kindAt (W.base + x) = k)
    (h : Mirrors W whole x (f k) (f' k) fun z a a' =>
      (x < z ∨ (whole → f' W.stop = f' k)) ∧ Q z a a') :
    Mirrors W whole x (kind >>= f) (kind >>= f') Q := by
  intro a j hlast hrun
  rw [run_bind run_kind, hk] at hrun
  obtain ⟨z, a', hj, hxz, hzlast, ⟨hstop, hq⟩, ha'⟩ := h a j hlast hrun
  refine ⟨z, a', hj, hxz, hzlast, hq, fun hz => ?_⟩
  rw [run_bind run_kind, ← ha' hz]
  rcases Nat.lt_or_ge x W.length with hx | hx
  · rw [copy_kindAt hx, hk]
  · have hzl := hz.le_length
    obtain rfl : x = W.length := by omega
    have hwhole : whole := (hz.resolve_left (by omega)).1
    exact congrFun (congrFun ((hstop.resolve_left (by omega)) hwhole) _) _

theorem check_bind {f f' : Bool → Parse α} {k : Kind} {b : Bool}
    (hb : (W.source.kindAt (W.base + x) == k) = b)
    (h : Mirrors W whole x (f b) (f' b) fun z a a' =>
      (x < z ∨ (whole → (W.stop == k) = b)) ∧ Q z a a') :
    Mirrors W whole x (check k >>= f) (check k >>= f') Q := by
  have hkind : Mirrors W whole x (kind >>= fun c => f (c == k))
      (kind >>= fun c => f' (c == k)) Q := by
    refine kind_bind rfl ?_
    rw [hb]
    refine h.mono fun y a a' _ hq => ⟨hq.1.imp_right fun hstop hwhole => ?_, hq.2⟩
    rw [hstop hwhole]
  exact hkind.congr rfl rfl

theorem peek_bind {f f' : Token → Parse α}
    (h : ∀ t', t'.word = (W.source.get (W.base + x)).word →
      Mirrors W whole x (f (W.source.get (W.base + x))) (f' t') fun z a a' => x < z ∧ Q z a a') :
    Mirrors W whole x (peek >>= f) (peek >>= f') Q := by
  by_cases hx : x < W.length
  · refine ((h _ (W.agrees x hx)).mono fun _ _ _ _ hq => hq.2).congr ?_ ?_
    · exact run_bind run_peek
    · exact run_bind run_peek
  · intro a j hlast hrun
    rw [run_bind run_peek] at hrun
    obtain ⟨z, a', hj, hxz, hzlast, ⟨hlt, hq⟩, -⟩ := h _ rfl a j hlast hrun
    exact ⟨z, a', hj, hxz, hzlast, hq, fun hz => absurd (hz.lt_length hlt) hx⟩

theorem advance_bind {f f' : Token → Parse α} (hk : W.source.kindAt (W.base + x) ≠ .endOfInput)
    (h : ∀ t', t'.word = (W.source.get (W.base + x)).word →
      Mirrors W whole (x + 1) (f (W.source.get (W.base + x))) (f' t') Q) :
    Mirrors W whole x (advance >>= f) (advance >>= f') Q := by
  intro a j hlast hrun
  have hi := lt_last_source hk
  rw [run_bind (run_advance hi)] at hrun
  by_cases hx : x < W.length
  · obtain ⟨z, a', hj, hxz, hzlast, hq, ha'⟩ := h _ (W.agrees x hx) a j hi hrun
    refine ⟨z, a', hj, by omega, hzlast, hq, fun hz => ?_⟩
    rw [run_bind (run_advance (lt_last_copy hx))]
    exact ha' hz
  · obtain ⟨z, a', hj, hxz, hzlast, hq, -⟩ := h _ rfl a j hi hrun
    refine ⟨z, a', hj, by omega, hzlast, hq, fun hz => ?_⟩
    exact absurd (hz.lt_length (by omega)) hx

/-- A token that may follow; the stretch does not end before it in the copy. -/
theorem eat_bind {f f' : Bool → Parse α} {k : Kind} (hend : k ≠ .endOfInput)
    (hclose : k ≠ .symbol .closeParen)
    (htrue : W.source.kindAt (W.base + x) = k → Mirrors W whole (x + 1) (f true) (f' true) Q)
    (hfalse : W.source.kindAt (W.base + x) ≠ k → Mirrors W whole x (f false) (f' false) Q) :
    Mirrors W whole x (eat k >>= f) (eat k >>= f') Q := by
  intro a j hlast hrun
  by_cases hk : W.source.kindAt (W.base + x) = k
  · have hi : W.base + x < W.source.last := lt_last_source (hk ▸ hend)
    rw [run_bind (run_eat hi hk)] at hrun
    obtain ⟨z, a', hj, hxz, hzlast, hq, ha'⟩ := htrue hk a j hi hrun
    refine ⟨z, a', hj, by omega, hzlast, hq, fun hz => ?_⟩
    have hx : x < W.length := hz.lt_length (by omega)
    rw [run_bind (run_eat (lt_last_copy hx) ((copy_kindAt hx).trans hk))]
    exact ha' hz
  · rw [run_bind (run_eat_of_ne hk)] at hrun
    obtain ⟨z, a', hj, hxz, hzlast, hq, ha'⟩ := hfalse hk a j hlast hrun
    refine ⟨z, a', hj, hxz, hzlast, hq, fun hz => ?_⟩
    have hx : x ≤ W.length := Nat.le_trans hxz hz.le_length
    rw [run_bind (run_eat_of_ne (copy_kindAt_ne hend hclose hx hk))]
    exact ha' hz

theorem expect_bind {f f' : Unit → Parse α} {c : Symbol} {what what' : Expectation}
    (h : Mirrors W whole (x + 1) (f ()) (f' ()) Q) :
    Mirrors W whole x (expect c what >>= f) (expect c what' >>= f') Q := by
  intro a j hlast hrun
  obtain ⟨_, _, hexpect, -⟩ := of_run_bind hrun
  have hk := kind_of_expect hexpect
  have hi : W.base + x < W.source.last := lt_last_source (hk ▸ nofun)
  rw [run_bind (run_expect what hi hk)] at hrun
  obtain ⟨z, a', hj, hxz, hzlast, hq, ha'⟩ := h a j hi hrun
  refine ⟨z, a', hj, by omega, hzlast, hq, fun hz => ?_⟩
  have hx : x < W.length := hz.lt_length (by omega)
  rw [run_bind (run_expect what' (lt_last_copy hx) ((copy_kindAt hx).trans hk))]
  exact ha' hz

theorem expectName (what : Expectation) :
    Mirrors W whole x (expectName what) (expectName what)
      fun y a a' => x < y ∧ a'.name = a.name := by
  refine kind_bind rfl ?_
  cases hk : W.source.kindAt (W.base + x) with
  | identifier name =>
    refine advance_bind (by rw [hk]; nofun) fun t' _ => pure ?_
    exact ⟨.inl (by omega), by omega, rfl⟩
  | _ => exact of_ne_ok (run_fail_ne_ok _)

theorem expectPropertyName :
    Mirrors W whole x expectPropertyName expectPropertyName
      fun y a a' => x < y ∧ a'.name = a.name := by
  refine peek_bind fun t' ht' => ?_
  obtain ⟨hkind, htext⟩ := Prod.mk.inj ht'
  simp only [hkind, htext]
  have hk' : W.source.kindAt (W.base + x) = (W.source.get (W.base + x)).kind := rfl
  cases hk : (W.source.get (W.base + x)).kind with
  | identifier | keyword =>
    refine advance_bind (by rw [hk', hk]; nofun) fun t' _ => pure ?_
    exact ⟨by omega, by omega, rfl⟩
  | _ => exact of_ne_ok (run_fail_ne_ok _)

theorem behind {item item' : Parse α} {S : α → α → Prop} {k : Kind} (hend : k ≠ .endOfInput)
    (hclose : k ≠ .symbol .closeParen)
    (h : Mirrors W whole (x + 1) item item' fun y a a' => x + 1 < y ∧ S a a') :
    Mirrors W whole x (behind k item) (behind k item') fun _ o o' => Option.Rel S o o' := by
  refine eat_bind hend hclose (fun _ => ?_) fun _ => ?_
  · exact h.map fun y a a' hq => .some hq.2
  · exact pure .none

theorem unlessAt {c : Symbol} {a a' : α} {item item' : Parse α} (ha : Q x a a')
    (h : Mirrors W False x item item' Q) :
    Mirrors W False x (unlessAt c a item) (unlessAt c a' item') Q := by
  refine check_bind rfl ?_
  split
  · exact pure ⟨.inr nofun, ha⟩
  · exact h.mono fun _ _ _ _ hq => ⟨.inr nofun, hq⟩

end Steps

section Loops

/-- An induction over two bounds at once. Each round takes a token, so behind `L` tokens the second
bound does not count. -/
theorem round_induction {L : Nat} {P : Nat → Nat → Nat → Prop} (hzero : ∀ m' x, P 0 m' x)
    (hsucc : ∀ m m' x, (∀ y, x < y → P m m' y) → P (m + 1) (m' + 1) x)
    (hbeyond : ∀ m x, L < x → P m 1 x → P m 0 x) (m m' x : Nat) (hx : L < x + m') : P m m' x := by
  induction m generalizing m' x with
  | zero => exact hzero m' x
  | succ m ih =>
    cases m' with
    | zero => exact hbeyond _ x hx (hsucc m 0 x fun y hy => ih 0 y (by omega))
    | succ m' => exact hsucc m m' x fun y hy => ih m' y (by omega)

variable {item item' : Parse α} {S : α → α → Prop} {m m' : Nat}

theorem separated (hitem : ∀ y, x ≤ y → Mirrors W whole y item item' fun z a a' => y < z ∧ S a a')
    (hx : W.length < x + m') :
    Mirrors W whole x (separated item m) (separated item' m') fun y as as' =>
      x < y ∧ List.Forall₂ S as as' := by
  refine round_induction (P := fun m m' z => x ≤ z → Mirrors W whole z (Parse.separated item m)
    (Parse.separated item' m') fun y as as' => z < y ∧ List.Forall₂ S as as') ?_ ?_ ?_ m m' x hx
    (Nat.le_refl x)
  · exact fun m' z _ => of_ne_ok (run_fail_ne_ok _)
  · intro m m' z ih hz
    refine (hitem z hz).bind fun y a a' _ ha => ?_
    refine eat_bind nofun nofun (fun _ => ?_) fun _ => ?_
    · refine (ih (y + 1) (by omega) (by omega)).bind fun w as as' _ has => ?_
      exact pure ⟨by omega, .cons ha.2 has.2⟩
    · exact pure ⟨ha.1, .cons ha.2 .nil⟩
  · exact fun m z hz h hxz => (h hxz).beyond hz

theorem length_lt_rounds (W : Window) (x : Nat) : W.length < x + (W.copy.tokens.size + 1) := by
  have := W.fits
  simp only [Stream.last] at this
  omega

theorem separatedBefore {close : Symbol}
    (hitem : ∀ y, x ≤ y → Mirrors W False y item item' fun z a a' => y < z ∧ S a a') :
    Mirrors W False x (separatedBefore close item) (separatedBefore close item')
      fun _ as as' => List.Forall₂ S as as' := by
  refine unlessAt .nil (rounds_bind ?_)
  exact (separated hitem (length_lt_rounds W x)).mono fun _ _ _ _ h => h.2

theorem separatedUntil {close : Symbol}
    (hitem : ∀ y, x ≤ y → Mirrors W False y item item' fun z a a' => y < z ∧ S a a')
    (hx : W.length < x + m') :
    Mirrors W False x (separatedUntil close item m) (separatedUntil close item' m')
      fun _ as as' => List.Forall₂ S as as' := by
  refine round_induction (P := fun m m' z => x ≤ z → Mirrors W False z
    (Parse.separatedUntil close item m) (Parse.separatedUntil close item' m')
    fun _ as as' => List.Forall₂ S as as') ?_ ?_ ?_ m m' x hx (Nat.le_refl x)
  · exact fun m' z _ => of_ne_ok (run_fail_ne_ok _)
  · intro m m' z ih hz
    refine check_bind rfl ?_
    split
    · exact pure ⟨.inr nofun, .nil⟩
    · refine (hitem z hz).bind fun y a a' _ ha => ?_
      refine eat_bind nofun nofun (fun _ => ?_) fun _ => ?_
      · refine (ih (y + 1) (by omega) (by omega)).bind fun w as as' _ has => ?_
        exact pure ⟨.inr nofun, .cons ha.2 has⟩
      · exact pure ⟨.inr nofun, .cons ha.2 .nil⟩
  · exact fun m z hz h hxz => (h hxz).beyond hz

theorem manyUntil {stops : Kind → Bool}
    (hitem : ∀ y, x ≤ y → Mirrors W False y item item' fun z a a' => y < z ∧ S a a')
    (hx : W.length < x + m') :
    Mirrors W False x (manyUntil stops item m) (manyUntil stops item' m')
      fun _ as as' => List.Forall₂ S as as' := by
  refine round_induction (P := fun m m' z => x ≤ z → Mirrors W False z
    (Parse.manyUntil stops item m) (Parse.manyUntil stops item' m')
    fun _ as as' => List.Forall₂ S as as') ?_ ?_ ?_ m m' x hx (Nat.le_refl x)
  · exact fun m' z _ => of_ne_ok (run_fail_ne_ok _)
  · intro m m' z ih hz
    refine kind_bind rfl ?_
    split
    · exact pure ⟨.inr nofun, .nil⟩
    · refine (hitem z hz).bind fun y a a' _ ha => ?_
      refine (ih y ha.1 (by omega)).bind fun w as as' _ has => ?_
      exact pure ⟨.inr nofun, .cons ha.2 has⟩
  · exact fun m z hz h hxz => (h hxz).beyond hz

inductive Links (y : Nat) (Q : Nat → α → α → Prop) : Nat → Option α → Option α → Prop
  | done : Links y Q y none none
  | more {z : Nat} {a a' : α} (hz : y < z) (h : Q z a a') : Links y Q z (some a) (some a')

theorem chain {step step' : α → Parse (Option α)} {a a' : α}
    (hstep : ∀ y a a', x ≤ y → Q y a a' → Mirrors W whole y (step a) (step' a') (Links y Q))
    (hx : W.length < x + m') (ha : Q x a a') :
    Mirrors W whole x (chain step m a) (chain step' m' a') Q := by
  refine round_induction (P := fun m m' z => x ≤ z → ∀ a a', Q z a a' →
    Mirrors W whole z (Parse.chain step m a) (Parse.chain step' m' a') Q) ?_ ?_ ?_ m m' x hx
    (Nat.le_refl x) a a' ha
  · exact fun m' z _ a a' _ => of_ne_ok (run_fail_ne_ok _)
  · intro m m' z ih hz a a' ha
    refine (hstep z a a' hz ha).bind fun y o o' _ hlinks => ?_
    cases hlinks with
    | done => exact pure ha
    | more hy hb => exact ih y hy (by omega) _ _ hb
  · exact fun m z hz h hxz a a' ha => (h hxz a a' ha).beyond hz

end Loops

end Mirrors

end ScriptEngine
