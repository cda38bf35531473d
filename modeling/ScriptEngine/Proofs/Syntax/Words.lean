import ScriptEngine.Proofs.Syntax.Levels
import ScriptEngine.Syntax.Print
import ScriptEngine.Syntax.Same

/-!
# Expressions at their rank

An expression is written when the reader of its own rank comes to the end of its words with it. From
there looser readers take it over, and readers of chains go on from it. Parentheses stand where the
rank does not suffice, and they make any expression a primary one. The leaves and the operators are
written as soon as their operands are.
-/

namespace ScriptEngine

open Parse Token

/-- The words stand in a stream from an index on, before its last token. -/
def Token.Stream.Shows (s : Stream) : Nat → List Word → Prop
  | _, [] => True
  | i, w :: ws => i < s.last ∧ (s.get i).word = w ∧ s.Shows (i + 1) ws

namespace Token.Stream

variable {s : Stream} {i : Nat}

@[simp] theorem shows_nil : s.Shows i [] := trivial

@[simp] theorem shows_cons {w : Word} {ws : List Word} :
    s.Shows i (w :: ws) ↔ i < s.last ∧ (s.get i).word = w ∧ s.Shows (i + 1) ws :=
  Iff.rfl

@[simp] theorem shows_append {us ws : List Word} :
    s.Shows i (us ++ ws) ↔ s.Shows i us ∧ s.Shows (i + us.length) ws := by
  induction us generalizing i with
  | nil => simp
  | cons u us ih =>
    simp only [List.cons_append, shows_cons, ih, List.length_cons, and_assoc]
    rw [show i + 1 + us.length = i + (us.length + 1) by omega]

theorem kindAt_of_word {w : Word} (h : (s.get i).word = w) : s.kindAt i = w.1 := by
  rw [← h]
  rfl

theorem Shows.split {us ws : List Word} {w : Word} (h : s.Shows i (us ++ w :: ws)) :
    ∃ k, k = i + us.length ∧ s.Shows i us ∧ k < s.last ∧ s.kindAt k = w.1 ∧ s.Shows (k + 1) ws := by
  obtain ⟨hus, hk, hw, hws⟩ := shows_append.mp h
  exact ⟨_, rfl, hus, hk, kindAt_of_word hw, hws⟩

theorem Shows.length_le {ws : List Word} (h : s.Shows i ws) (hi : i ≤ s.last) :
    i + ws.length ≤ s.last := by
  induction ws generalizing i with
  | nil => exact hi
  | cons w ws ih =>
    have hrest := ih h.2.2 h.1
    simp only [List.length_cons]
    omega

end Token.Stream

theorem BinaryOp.rank_bounds (op : BinaryOp) : 6 ≤ op.rank ∧ op.rank ≤ 14 := by
  cases op <;> decide

theorem LogicalOp.rank_bounds (op : LogicalOp) : 4 ≤ op.rank ∧ op.rank ≤ 5 := by
  cases op <;> decide

theorem Expr.rank_bounds (e : Expr) : 1 ≤ e.rank ∧ e.rank ≤ 19 := by
  cases e with
  | binary _ op =>
    have := op.rank_bounds
    simp only [Expr.rank]
    omega
  | logical _ op =>
    have := op.rank_bounds
    simp only [Expr.rank]
    omega
  | update _ _ side => cases side <;> simp [Expr.rank]
  | member _ base =>
    simp only [Expr.rank]
    split <;> decide
  | _ => simp [Expr.rank]

/-- The level from which on no reader may go on behind an expression of a rank. -/
def Rank.needs (r : Nat) : Nat :=
  if r ≤ 2 then 1 else if r ≤ 13 then r + 1 else if r ≤ 15 then r else 19

theorem Rank.le_needs {r : Nat} (hr : r ≠ 2) (hr' : r ≤ 19) : r ≤ Rank.needs r := by
  unfold Rank.needs
  split
  · omega
  · split
    · omega
    · split <;> omega

open Grammar Word

variable (numeral : Float → Word)

/-- Wherever the words of an expression stand, with a follow that does not go on, the reader of its
rank comes to their end with the same expression. -/
def Expr.Written (e : Expr) : Prop :=
  ∀ (s : Stream) (i j n : Nat), s.Shows i (e.words numeral) →
    j = i + (e.words numeral).length → j ≤ s.last → j ≤ i + n →
    closedFrom (Rank.needs e.rank) (s.kindAt j) →
    ∃ e' : Expr, e'.same e ∧ Arrives (upTo n) e.rank s i e' j

variable {numeral}

namespace Expr

variable {e : Expr} {s : Stream} {i j n : Nat}

theorem Written.takes_of_le (he : e.Written numeral) {r : Nat} (hr : 1 ≤ r) (hr' : r ≠ 2)
    (hle : r ≤ e.rank) (hs : s.Shows i (e.words numeral))
    (hj : j = i + (e.words numeral).length) (hlast : j ≤ s.last) (hn : j ≤ i + n)
    (hk : closedFrom r (s.kindAt j)) :
    ∃ e' : Expr, e'.same e ∧ readerAt (upTo n) r s i = .ok (e', j) := by
  have hbounds := e.rank_bounds
  have hneeds : r ≤ Rank.needs e.rank := by
    by_cases htwo : e.rank = 2
    · rw [htwo, Rank.needs, if_pos (Nat.le_refl 2)]
      omega
    · exact Nat.le_trans hle (Rank.le_needs htwo hbounds.2)
  obtain ⟨e', hsame, harrives⟩ := he s i j n hs hj hlast hn (closedFrom_mono hk hneeds)
  have hread := harrives.stop hlast (closedFrom_mono hk hle)
  exact ⟨e', hsame, run_readerAt_of_le hr hle hbounds.2 hread hlast hk⟩

theorem Written.nested (he : e.Written numeral) (hs : s.Shows i (e.words numeral))
    (hj : j = i + (e.words numeral).length) (hlast : j ≤ s.last) (hn : j < i + n)
    (hk : closedFrom 1 (s.kindAt j)) :
    ∃ e' : Expr, e'.same e ∧ (upTo n).assignment s i = .ok (e', j) := by
  obtain ⟨n, rfl⟩ : ∃ m, n = m + 1 := ⟨n - 1, by omega⟩
  exact he.takes_of_le (Nat.le_refl 1) (by omega) e.rank_bounds.1 hs hj hlast (by omega) hk

theorem Written.takes_grouped (he : e.Written numeral)
    (hs : s.Shows i (grouped true (e.words numeral)))
    (hj : j = i + (grouped true (e.words numeral)).length) (hn : j ≤ i + n) :
    ∃ e' : Expr, e'.same e ∧ primary (upTo n) s i = .ok (e', j) := by
  simp only [grouped, if_true, List.cons_append, Stream.shows_cons, Stream.shows_append,
    Stream.shows_nil, and_true, List.length_cons, List.length_append, List.length_nil] at hs hj
  obtain ⟨hi, hopen, hinner, hk, hclose⟩ := hs
  have hkopen := Stream.kindAt_of_word hopen
  have hkclose := Stream.kindAt_of_word hclose
  have hfollow : closedFrom 1 (s.kindAt (i + 1 + (e.words numeral).length)) := by
    rw [hkclose]
    decide
  obtain ⟨e', hsame, hread⟩ := he.nested (n := n) hinner rfl (by omega) (by omega) hfollow
  have hparen := run_primary_paren hi hkopen hread hk hkclose
  rw [show i + 1 + (e.words numeral).length + 1 = j by omega] at hparen
  refine ⟨_, ?_, hparen⟩
  rw [same_withOrigin]
  exact hsame

theorem Written.takes (he : e.Written numeral) {r : Nat} (hr : 1 ≤ r) (hr' : r ≠ 2) (hr'' : r ≤ 19)
    (hs : s.Shows i (grouped (e.rank < r) (e.words numeral)))
    (hj : j = i + (grouped (e.rank < r) (e.words numeral)).length) (hlast : j ≤ s.last)
    (hn : j ≤ i + n) (hk : closedFrom r (s.kindAt j)) :
    ∃ e' : Expr, e'.same e ∧ readerAt (upTo n) r s i = .ok (e', j) := by
  by_cases hrank : e.rank < r
  · simp only [hrank, decide_true] at hs hj
    obtain ⟨e', hsame, hread⟩ := he.takes_grouped hs hj hn
    exact ⟨e', hsame, run_readerAt_of_le hr hr'' (Nat.le_refl 19) hread hlast hk⟩
  · simp only [hrank, decide_false, grouped, Bool.false_eq_true, if_false] at hs hj
    exact he.takes_of_le hr hr' (by omega) hs hj hlast hn hk

/-- A place at the left end of a chain. Parts of the same chain of calls need no follow. -/
theorem Written.arrives (he : e.Written numeral) {r : Nat} (hr : isChain r)
    (hs : s.Shows i (grouped (e.rank < r) (e.words numeral)))
    (hj : j = i + (grouped (e.rank < r) (e.words numeral)).length) (hlast : j ≤ s.last)
    (hn : j ≤ i + n) (hk : e.rank = r ∧ 17 ≤ r ∨ closedFrom (r + 1) (s.kindAt j)) :
    ∃ e' : Expr, e'.same e ∧ Arrives (upTo n) r s i e' j := by
  have hr' := isChain_iff.mp hr
  by_cases hrank : e.rank = r
  · subst hrank
    simp only [Nat.lt_irrefl, decide_false, grouped, Bool.false_eq_true, if_false] at hs hj
    refine he s i j n hs hj hlast hn ?_
    rcases hk with ⟨-, hr''⟩ | hk
    · rw [Rank.needs, if_neg (by omega), if_neg (by omega), if_neg (by omega)]
      rfl
    · refine closedFrom_mono hk ?_
      unfold Rank.needs
      split
      · omega
      · split
        · omega
        · split <;> omega
  · have hlt : decide (e.rank < r) = decide (e.rank < r + 1) := by
      simp only [decide_eq_decide]
      omega
    rcases hk with ⟨habsurd, -⟩ | hk
    · exact absurd habsurd hrank
    · rw [hlt] at hs hj
      obtain ⟨e', hsame, hread⟩ := he.takes (by omega) (by omega) (by omega) hs hj hlast hn hk
      exact ⟨e', hsame, arrives_of_next hr hread⟩

/-! ## One lemma for each kind of expression -/

theorem written_of_leaf {w : Word} (hwords : e.words numeral = [w]) (hrank : e.rank = Rank.primary)
    (hread : ∀ (g : Grammar) (s : Stream) (i : Nat), i < s.last → (s.get i).word = w →
      ∃ e' : Expr, e'.same e ∧ primary g s i = .ok (e', i + 1)) : e.Written numeral := by
  intro s i j n hs hj _ _ _
  rw [hwords] at hs hj
  obtain ⟨e', hsame, hprimary⟩ := hread (upTo n) s i hs.1 hs.2.1
  rw [hrank, hj]
  exact ⟨e', hsame, hprimary⟩

theorem written_of_level {l r : Expr} {c : Symbol} {join : Origin → Expr → Expr → Expr}
    (hl : l.Written numeral) (hr : r.Written numeral) (hbounds : 3 ≤ e.rank ∧ e.rank ≤ 13)
    (hwords : e.words numeral = grouped (l.rank < e.rank) (l.words numeral) ++
      symbol c :: grouped (r.rank < e.rank + 1) (r.words numeral))
    (hjoin : levelAt e.rank (.symbol c) = some join) (hclosed : closedFrom (e.rank + 1) (.symbol c))
    (hsame : ∀ o l' r', l'.same l → r'.same r → (join o l' r').same e) : e.Written numeral := by
  intro s i j n hs hj hlast hn hk
  rw [hwords] at hs hj
  simp only [List.length_append, List.length_cons] at hj
  obtain ⟨k, hkl, hsl, hklast, hkop, hsr⟩ := hs.split
  have hchain : isChain e.rank := isChain_iff.mpr (.inl hbounds)
  have hneeds : Rank.needs e.rank = e.rank + 1 := by
    rw [Rank.needs, if_neg (by omega), if_pos hbounds.2]
  rw [hneeds] at hk
  obtain ⟨l', hl', harrives⟩ := hl.arrives hchain hsl hkl (n := n) (by omega) (by omega)
    (.inr (by rw [hkop]; exact hclosed))
  obtain ⟨r', hr', hread⟩ := hr.takes (r := e.rank + 1) (n := n) (j := j) (by omega) (by omega)
    (by omega) hsr (by omega) hlast (by omega) hk
  have hstep : stepAt (upTo n) e.rank i l' s k = .ok (some (join (originAt s i j) l' r'), j) := by
    rw [stepAt_level hbounds.1 hbounds.2]
    exact run_levelStep hklast (by rw [hkop]; exact hjoin) hread
  exact ⟨_, hsame _ l' r' hl' hr', harrives.step hchain hklast hstep (by omega)⟩

theorem written_binary {o : Origin} {op : BinaryOp} {l r : Expr} (hl : l.Written numeral)
    (hr : r.Written numeral) (hop : op ≠ .exp) : (Expr.binary o op l r).Written numeral := by
  have hjoin : levelAt op.rank (.symbol op.symbol) = some (.binary · op) := by
    cases op <;> first | rfl | exact absurd rfl hop
  have hclosed : closedFrom (op.rank + 1) (.symbol op.symbol) := by
    cases op <;> decide
  have hbounds : 3 ≤ op.rank ∧ op.rank ≤ 13 := by
    cases op <;> first | decide | exact absurd rfl hop
  refine written_of_level hl hr hbounds ?_ hjoin hclosed fun o' l' r' hl' hr' => ?_
  · cases op <;> first | rfl | exact absurd rfl hop
  · simp [Expr.same, hl', hr']

theorem written_logical {o : Origin} {op : LogicalOp} {l r : Expr} (hl : l.Written numeral)
    (hr : r.Written numeral) : (Expr.logical o op l r).Written numeral := by
  have hjoin : levelAt op.rank (.symbol op.symbol) = some (.logical · op) := by
    cases op <;> rfl
  have hclosed : closedFrom (op.rank + 1) (.symbol op.symbol) := by
    cases op <;> decide
  have hbounds : 3 ≤ op.rank ∧ op.rank ≤ 13 := by
    cases op <;> decide
  refine written_of_level hl hr hbounds rfl hjoin hclosed fun o' l' r' hl' hr' => ?_
  simp [Expr.same, hl', hr']

theorem written_coalesce {o : Origin} {l r : Expr} (hl : l.Written numeral)
    (hr : r.Written numeral) : (Expr.coalesce o l r).Written numeral := by
  have hjoin : levelAt 3 (.symbol .coalesce) = some .coalesce := rfl
  have hclosed : closedFrom 4 (.symbol .coalesce) := by decide
  refine written_of_level hl hr (by simp [Expr.rank]) rfl hjoin hclosed fun o' l' r' hl' hr' => ?_
  simp [Expr.same, hl', hr']

theorem written_power {o : Origin} {l r : Expr} (hl : l.Written numeral)
    (hr : r.Written numeral) : (Expr.binary o .exp l r).Written numeral := by
  intro s i j n hs hj hlast hn hk
  simp only [Expr.words, List.length_append, List.length_cons] at hs hj
  obtain ⟨k, hkl, hsl, hklast, hkop, hsr⟩ := hs.split
  obtain ⟨n, rfl⟩ : ∃ m, n = m + 1 := ⟨n - 1, by omega⟩
  obtain ⟨l', hl', hbase⟩ := hl.takes (r := Rank.unary) (n := n + 1) (by decide) (by decide)
    (by decide) hsl hkl
    (by omega) (by omega) (by rw [hkop]; decide)
  obtain ⟨r', hr', hpower⟩ := hr.takes (r := Rank.exponent) (n := n) (j := j)
    (by decide) (by decide)
    (by decide)
    hsr (by omega) hlast (by omega) hk
  refine ⟨_, ?_, run_readExponent_power hbase hklast hkop hpower⟩
  simp [Expr.same, hl', hr']

theorem written_unary {o : Origin} {op : UnaryOp} (he : e.Written numeral) :
    (Expr.unary o op e).Written numeral := by
  intro s i j n hs hj hlast hn hk
  simp only [Expr.words, Stream.shows_cons, List.length_cons] at hs hj
  obtain ⟨hop, hword, hse⟩ := hs
  have hkop := Stream.kindAt_of_word hword
  obtain ⟨n, rfl⟩ : ∃ m, n = m + 1 := ⟨n - 1, by omega⟩
  obtain ⟨e', he', hread⟩ := he.takes (r := Rank.unary) (n := n) (j := j) (by decide) (by decide)
    (by decide)
    hse (by omega) hlast (by omega) hk
  have hunary : unaryOp? (s.kindAt i) = some op := by
    rw [hkop]
    cases op <;> rfl
  have hupdate : updateOp? (s.kindAt i) = none := by
    rw [hkop]
    cases op <;> rfl
  refine ⟨_, ?_, run_readUnary_op hop hupdate hunary hread⟩
  simp [Expr.same, he']

theorem written_conditional {o : Origin} {test yes no : Expr} (htest : test.Written numeral)
    (hyes : yes.Written numeral) (hno : no.Written numeral) :
    (Expr.conditional o test yes no).Written numeral := by
  intro s i j n hs hj hlast hn hk
  simp only [Expr.words, List.length_append, List.length_cons] at hs hj
  obtain ⟨m, hm, hs', hmlast, hcolon, hsno⟩ := hs.split
  obtain ⟨k, hkt, hstest, hklast, hquestion, hsyes⟩ := hs'.split
  simp only [List.length_append, List.length_cons] at hm
  obtain ⟨test', htest', hladder⟩ :=
    htest.takes (r := Rank.coalesce) (n := n) (by decide) (by decide)
    (by decide)
    hstest hkt (by omega) (by omega) (by rw [hquestion]; decide)
  obtain ⟨yes', hyes', hreadyes⟩ := hyes.nested (n := n) (j := m) hsyes (by omega) (by omega)
    (by omega) (by rw [hcolon]; decide)
  obtain ⟨no', hno', hreadno⟩ := hno.nested (n := n) (j := j) hsno (by omega) hlast (by omega) hk
  refine ⟨_, ?_, run_conditional_branches hladder hklast hquestion hreadyes hmlast hcolon hreadno⟩
  simp [Expr.same, htest', hyes', hno']

end Expr

end ScriptEngine
