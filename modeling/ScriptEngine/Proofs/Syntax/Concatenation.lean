import ScriptEngine.Proofs.Syntax.Locality
import ScriptEngine.Proofs.Syntax.Progress

/-!
# Programs one behind the other

A semicolon ends a statement for good. Where the tokens of two programs are written one behind the
other and the first of them end with a semicolon, the statements of the first are read as before,
since nothing but `else` could go on behind the semicolon, and no program begins with that. An end
of input among the first tokens ends the whole program, whatever stands behind it.
-/

namespace ScriptEngine

open SyntaxError Token

namespace Token.Stream

variable {tokens : List Token} {finish : Text.Position} {i : Nat}

theorem get_ofTokens (hi : i < tokens.length) :
    (ofTokens tokens.toArray finish).get i = tokens[i] := by
  unfold ofTokens
  split
  · rw [get_eq (by simpa using hi)]
    rfl
  · rw [get_eq (by simp; omega), Array.getElem_push_lt (by simpa using hi)]
    rfl

theorem closed_ofList (tokens : List Token) (finish : Text.Position) :
    (ofTokens tokens.toArray finish).Closed :=
  closed_ofTokens _ _

theorem kindAt_of_last_le {s : Stream} (hs : s.Closed) (hi : s.last ≤ i) : s.kindAt i =
    .endOfInput := by
  by_contra hk
  exact absurd (hs.lt_last hk) (Nat.not_lt.mpr hi)

theorem kindAt_ofTokens (hi : tokens.length ≤ i) :
    (ofTokens tokens.toArray finish).kindAt i = .endOfInput := by
  refine kindAt_of_last_le (closed_ofList _ _) (Nat.le_trans ?_ hi)
  unfold ofTokens last
  split <;> simp

theorem le_last_of_kindAt {s : Stream} (hs : s.Closed)
    (h : ∀ k < i, s.kindAt k ≠ .endOfInput) : i ≤ s.last :=
  Nat.le_of_not_lt fun hi => h s.last hi hs

theorem lt_length_of_kindAt (hk : (ofTokens tokens.toArray finish).kindAt i ≠ .endOfInput) :
    i < tokens.length :=
  Nat.lt_of_not_le fun hi => hk (kindAt_ofTokens hi)

section Append

variable {as bs : List Token} {finish' : Text.Position} {i : Nat}

theorem get_append_left (finish : Text.Position) (hi : i < as.length) :
    (ofTokens (as ++ bs).toArray finish').get i = (ofTokens as.toArray finish).get i := by
  rw [get_ofTokens hi, get_ofTokens (by rw [List.length_append]; omega),
    List.getElem_append_left hi]

theorem get_append_right (finish : Text.Position) (hi : i < bs.length) :
    (ofTokens (as ++ bs).toArray finish').get (as.length + i) =
      (ofTokens bs.toArray finish).get i := by
  rw [get_ofTokens hi, get_ofTokens (by rw [List.length_append]; omega),
    List.getElem_append_right (Nat.le_add_right _ _)]
  simp only [Nat.add_sub_cancel_left]

theorem kindAt_append_right (finish : Text.Position) (i : Nat) :
    (ofTokens (as ++ bs).toArray finish').kindAt (as.length + i) =
      (ofTokens bs.toArray finish).kindAt i := by
  by_cases hi : i < bs.length
  · exact congrArg Token.kind (get_append_right finish hi)
  · rw [kindAt_ofTokens (Nat.le_of_not_lt hi), kindAt_ofTokens (by rw [List.length_append]; omega)]

end Append

end Token.Stream

namespace Grammar

open Parse

variable {g : Grammar} {s : Stream} {i j : Nat}

theorem not_else_of_readAssignment {e : Expr} (h : readAssignment g s i = .ok (e, j)) :
    s.kindAt i ≠ .keyword .else_ := by
  intro hk
  obtain ⟨e', j', hunary⟩ := exists_readUnary_of_readAssignment h
  rw [run_readUnary (by rw [hk]; rfl) (by rw [hk]; rfl)] at hunary
  obtain ⟨e'', j'', hhead⟩ := exists_memberHead_of_updated hunary
  rw [run_memberHead_of_ne (by rw [hk]; nofun)] at hhead
  have ht : (s.get i).kind = .keyword .else_ := hk
  unfold primary at hhead
  rw [run_bind run_get, run_bind run_peek, ht] at hhead
  exact run_unexpected_ne_ok _ hhead

theorem not_else_of_readStatement {st : Stmt} (h : readStatement g s i = .ok (st, j)) :
    s.kindAt i ≠ .keyword .else_ := by
  intro hk
  unfold readStatement at h
  rw [run_bind run_kind, hk] at h
  change expressionStatement g s i = _ at h
  unfold expressionStatement at h
  rw [run_bind run_get] at h
  obtain ⟨e, k, hassignment, -⟩ := of_run_bind h
  exact not_else_of_readAssignment hassignment hk

end Grammar

namespace Follows

open Parse

variable {α β : Type} {W : Overlap} {item : Parse α} {view : α → β} {stops : Kind → Bool}

theorem manyUntil_append
    (hitem : ∀ z, Follows W z item item fun w a a' => z < w ∧ view a' = view a) {m x y : Nat}
    {as : List α} (hx : x ≤ W.source.last)
    (hrun : Parse.manyUntil stops item m W.source x = .ok (as, y))
    (hy : W.Covers y) :
    ∃ as', as'.map view = as.map view ∧ x + as.length ≤ y ∧ ∀ {m' : Nat} {bs : List α} {j : Nat},
      Parse.manyUntil stops item m' W.copy (W.place + y) = .ok (bs, j) →
      Parse.manyUntil stops item (as.length + m') W.copy (W.place + x) = .ok (as' ++ bs, j) := by
  induction m generalizing x as with
  | zero => exact absurd hrun (run_fail_ne_ok _ _)
  | succ m ih =>
    rw [Parse.manyUntil, run_bind run_kind] at hrun
    split at hrun
    · cases hrun
      refine ⟨[], rfl, Nat.le_refl y, fun hrest => ?_⟩
      rwa [List.length_nil, Nat.zero_add]
    next hstops =>
      obtain ⟨a, k, ha, hrun⟩ := of_run_bind hrun
      obtain ⟨as, k', has, hrun⟩ := of_run_bind hrun
      cases hrun
      obtain ⟨b, b', z, hb, hxz, hz, ⟨hlt, hview⟩, hcopy⟩ | ⟨c, z, hb, -⟩ := hitem x hx
      · obtain ⟨rfl, rfl⟩ := Prod.mk.inj (Except.ok.inj (ha.symm.trans hb))
        obtain ⟨as', hviews, hlength, hrest⟩ := ih hz has
        have hkz : k ≤ y := by omega
        refine ⟨b' :: as', ?_, ?_, fun hbs => ?_⟩
        · rw [List.map_cons, List.map_cons, hview, hviews]
        · rw [List.length_cons]
          omega
        · rw [List.length_cons, Nat.add_right_comm]
          refine run_manyUntil_cons ?_ (hcopy (hy.of_le hkz)) (hrest hbs)
          rw [Overlap.kindAt_copy (hy.lt_length (by omega))]
          exact eq_false_of_ne_true hstops
      · rw [ha] at hb
        cases hb

end Follows

namespace Overlap

variable {as bs : List Token} {finish finish' : Text.Position} {e : Nat}

section First

variable (hend : (Stream.ofTokens as.toArray finish).kindAt e = .endOfInput)
  (htaken : ∀ k < e, (Stream.ofTokens as.toArray finish).kindAt k ≠ .endOfInput)
  (hlast : ∀ t ∈ as.getLast?, t.kind = .symbol .semicolon)
  (helse : (Stream.ofTokens (as ++ bs).toArray finish').kindAt as.length ≠ .keyword .else_)

include htaken

theorem agrees_first (x : Nat) (hx : x < e) :
    (Stream.ofTokens (as ++ bs).toArray finish').get (0 + x) =
      (Stream.ofTokens as.toArray finish).get x := by
  rw [Nat.zero_add]
  exact Stream.get_append_left _ (Stream.lt_length_of_kindAt (htaken x hx))

theorem fits_first : 0 + e ≤ (Stream.ofTokens (as ++ bs).toArray finish').last := by
  rw [Nat.zero_add]
  refine Stream.le_last_of_kindAt (Stream.closed_ofList _ _) fun k hk => ?_
  rw [Stream.kindAt, ← Nat.zero_add k, agrees_first htaken k hk]
  exact htaken k hk

include hend hlast helse

theorem seam_first : (Stream.ofTokens (as ++ bs).toArray finish').kindAt (0 + e) =
      (Stream.ofTokens as.toArray finish).kindAt e ∨
    (∀ x, x + 1 = e → (Stream.ofTokens as.toArray finish).kindAt x = .symbol .semicolon) ∧
      ((Stream.ofTokens (as ++ bs).toArray finish').kindAt (0 + e) = .keyword .else_ ↔
        (Stream.ofTokens as.toArray finish).kindAt e = .keyword .else_) := by
  rw [Nat.zero_add]
  rcases Nat.lt_trichotomy e as.length with he | rfl | he
  · exact .inl (congrArg Token.kind (Stream.get_append_left _ he))
  · refine .inr ⟨fun x hx => ?_, ?_⟩
    · have hlt : x < as.length := by omega
      rw [Stream.kindAt, Stream.get_ofTokens hlt]
      exact hlast _ (by simp [List.getLast?_eq_getElem?, ← hx])
    · refine ⟨fun h => absurd h helse, fun h => ?_⟩
      rw [hend] at h
      cases h
  · exact absurd (Stream.kindAt_ofTokens (Nat.le_refl _)) (htaken _ he)

/-- The tokens of a program up to its end, with other tokens behind them. -/
def first : Overlap where
  source := Stream.ofTokens as.toArray finish
  copy := Stream.ofTokens (as ++ bs).toArray finish'
  place := 0
  length := e
  whole := True
  closed := Stream.closed_ofList as finish
  fits := fits_first htaken
  agrees := agrees_first htaken
  seam _ := seam_first hend htaken hlast helse

end First

section Second

variable (htaken : ∀ k < e, (Stream.ofTokens bs.toArray finish).kindAt k ≠ .endOfInput)
  (hopen : ∀ t ∈ as, t.kind ≠ .endOfInput)

include htaken

theorem agrees_second (x : Nat) (hx : x < e) :
    (Stream.ofTokens (as ++ bs).toArray finish').get (as.length + x) =
      (Stream.ofTokens bs.toArray finish).get x :=
  Stream.get_append_right _ (Stream.lt_length_of_kindAt (htaken x hx))

include hopen

theorem fits_second : as.length + e ≤ (Stream.ofTokens (as ++ bs).toArray finish').last := by
  refine Stream.le_last_of_kindAt (Stream.closed_ofList _ _) fun k hk => ?_
  by_cases hk' : k < as.length
  · rw [Stream.kindAt, Stream.get_append_left finish hk', Stream.get_ofTokens hk']
    exact hopen _ (List.getElem_mem hk')
  · obtain ⟨i, rfl⟩ := Nat.exists_eq_add_of_le (Nat.le_of_not_lt hk')
    rw [Stream.kindAt_append_right finish]
    exact htaken i (by omega)

/-- The tokens of a program up to its end, behind tokens that are not the end of input. -/
def second : Overlap where
  source := Stream.ofTokens bs.toArray finish
  copy := Stream.ofTokens (as ++ bs).toArray finish'
  place := as.length
  length := e
  whole := True
  closed := Stream.closed_ofList bs finish
  fits := fits_second htaken hopen
  agrees := agrees_second htaken
  seam _ := .inl (Stream.kindAt_append_right finish e)

end Second

end Overlap

namespace Program

open Parse Grammar

variable {s : Stream} {n e : Nat} {ss : List Stmt}

theorem statements_eq_reader (hs : s.Closed) (hn : s.last < n) :
    statements s = (reader n n s 0).map Prod.fst := by
  have hlast : s.last < s.tokens.size + 1 := Nat.zero_add (s.tokens.size + 1) ▸ s.last_lt_rounds 0
  rw [statements_eq, ((reader_inStep hs hlast hn hlast hn).run (Nat.zero_le _)).1]

theorem exists_run (hs : s.Closed) (hn : s.last < n) (h : statements s = .ok ss) :
    ∃ e, reader n n s 0 = .ok (ss, e) ∧ s.kindAt e = .endOfInput ∧
      ∀ k < e, s.kindAt k ≠ .endOfInput := by
  rw [statements_eq_reader hs hn] at h
  obtain ⟨-, e, -, -, htaken, ⟨body, hrun, hend⟩ | ⟨c, -, hrun⟩⟩ :=
    (reader_inStep hs hn hn hn hn).run (Nat.zero_le _)
  · rw [hrun] at h
    obtain rfl : body = ss := Except.ok.inj h
    exact ⟨e, hrun, hend, fun k hk => htaken k (Nat.zero_le k) hk⟩
  · rw [hrun] at h
    cases h

theorem statements_of_run (hs : s.Closed) (hn : s.last < n) (h : reader n n s 0 = .ok (ss, e)) :
    statements s = .ok ss := by
  rw [statements_eq_reader hs hn, h]
  rfl

theorem not_else_of_reader (h : reader n n s 0 = .ok (ss, e)) : s.kindAt 0 ≠ .keyword .else_ := by
  intro hk
  unfold reader at h
  cases n with
  | zero => exact run_fail_ne_ok _ _ h
  | succ n =>
    rw [manyUntil, run_bind run_kind, hk] at h
    obtain ⟨st, k, hstatement, -⟩ := of_run_bind h
    exact not_else_of_readStatement hstatement hk

section Tokens

variable {tokens : List Token} {source : Text.Source}

theorem statements_of_ofTokens {p : Block} (h : ofTokens tokens source = .ok p) :
    statements (Stream.ofTokens tokens.toArray source.endPosition) = .ok p.statements := by
  unfold ofTokens ofStream at h
  cases hs : statements (Stream.ofTokens tokens.toArray source.endPosition) with
  | ok ss =>
    rw [hs] at h
    cases h
    rfl
  | error f =>
    rw [hs] at h
    cases h

theorem exists_ofTokens
    (h : statements (Stream.ofTokens tokens.toArray source.endPosition) = .ok ss) :
    ∃ p, ofTokens tokens source = .ok p ∧ p.statements = ss := by
  unfold ofTokens ofStream
  rw [h]
  exact ⟨_, rfl, rfl⟩

end Tokens

theorem reader_append {as bs : List Token} {finish finish' : Text.Position}
    (hend : (Stream.ofTokens as.toArray finish).kindAt e = .endOfInput)
    (htaken : ∀ k < e, (Stream.ofTokens as.toArray finish).kindAt k ≠ .endOfInput)
    (hlast : ∀ t ∈ as.getLast?, t.kind = .symbol .semicolon)
    (helse : (Stream.ofTokens (as ++ bs).toArray finish').kindAt as.length ≠ .keyword .else_)
    (hrun : reader n n (Stream.ofTokens as.toArray finish) 0 = .ok (ss, e)) :
    ∃ ss', ss'.map (Stmt.relocate .detach) = ss.map (Stmt.relocate .detach) ∧ ss.length ≤ e ∧
      ∀ {m : Nat} {ts : List Stmt} {j : Nat}, ss.length + m = n →
        reader n m (Stream.ofTokens (as ++ bs).toArray finish') e = .ok (ts, j) →
        reader n n (Stream.ofTokens (as ++ bs).toArray finish') 0 = .ok (ss' ++ ts, j) := by
  let W := Overlap.first hend htaken hlast helse
  obtain ⟨ss', hviews, hlength, hrest⟩ := Follows.manyUntil_append
    (fun z => (local_upTo n).statement W z) (Nat.zero_le _) hrun (.inr ⟨trivial, rfl⟩)
  refine ⟨ss', hviews, by omega, fun hm hts => ?_⟩
  have hplace : W.place + e = e := Nat.zero_add e
  rw [hplace] at hrest
  have hread := hrest hts
  rwa [hm] at hread

theorem reader_behind {as bs : List Token} {finish finish' : Text.Position} {m : Nat}
    (htaken : ∀ k < e, (Stream.ofTokens bs.toArray finish).kindAt k ≠ .endOfInput)
    (hopen : ∀ t ∈ as, t.kind ≠ .endOfInput)
    (hrun : reader n n (Stream.ofTokens bs.toArray finish) 0 = .ok (ss, e)) (hm : e < m) :
    ∃ ss', ss'.map (Stmt.relocate .detach) = ss.map (Stmt.relocate .detach) ∧
      reader n m (Stream.ofTokens (as ++ bs).toArray finish') as.length =
        .ok (ss', as.length + e) := by
  let W : Overlap := @Overlap.second as bs finish finish' e htaken hopen
  have hready (y : Nat) : W.Ready y := fun _ _ => Stream.kindAt_append_right finish y
  have hfollows : Follows W 0 (reader n n) (reader n m) fun _ ss ss' =>
      ss'.map (Stmt.relocate .detach) = ss.map (Stmt.relocate .detach) :=
    Follows.manyUntil hready (fun z _ => (local_upTo n).statement W z) (show e < 0 + m by omega)
  obtain ⟨a, a', y, hrun', -, -, hviews, hcopy⟩ | ⟨c, k, hrun', -⟩ := hfollows (Nat.zero_le _)
  · obtain ⟨rfl, rfl⟩ := Prod.mk.inj (Except.ok.inj (hrun.symm.trans hrun'))
    exact ⟨a', hviews, hcopy (.inr ⟨trivial, rfl⟩)⟩
  · cases hrun.symm.trans hrun'

theorem end_cases {as : List Token} {finish : Text.Position}
    (hend : (Stream.ofTokens as.toArray finish).kindAt e = .endOfInput)
    (htaken : ∀ k < e, (Stream.ofTokens as.toArray finish).kindAt k ≠ .endOfInput) :
    as.any isEnd = true ∧ e < as.length ∨
      as.any isEnd = false ∧ e = as.length ∧ ∀ t ∈ as, t.kind ≠ .endOfInput := by
  by_cases he : e < as.length
  · refine .inl ⟨List.any_eq_true.mpr ⟨as[e], List.getElem_mem he, ?_⟩, he⟩
    rw [Stream.kindAt, Stream.get_ofTokens he] at hend
    exact beq_iff_eq.mpr hend
  · have hopen : ∀ t ∈ as, t.kind ≠ .endOfInput := by
      intro t ht
      obtain ⟨i, hi, rfl⟩ := List.getElem_of_mem ht
      have hkind := htaken i (by omega)
      rwa [Stream.kindAt, Stream.get_ofTokens hi] at hkind
    refine .inr ⟨List.any_eq_false.mpr fun t ht =>
      ?_, Nat.le_antisymm ?_ (Nat.le_of_not_lt he), hopen⟩
    · exact fun h => hopen t ht (beq_iff_eq.mp h)
    · exact Nat.le_of_not_lt fun hlt => htaken _ hlt (Stream.kindAt_ofTokens (Nat.le_refl _))

/-- Two programs one behind the other, where the first has no tokens or ends with a semicolon: the
statements of the first and behind them those of the second, unless the first has an end of input
among its tokens, which ends the whole. Nodes keep their places and their tokens. -/
theorem semicolon_ends_statements {as bs : List Token} {source₁ source₂ : Text.Source}
    (source : Text.Source) {p q : Block} (ha : ofTokens as source₁ = .ok p)
    (hb : ofTokens bs source₂ = .ok q) (hlast : ∀ t ∈ as.getLast?, t.kind = .symbol .semicolon) :
    ∃ r, ofTokens (as ++ bs) source = .ok r ∧
      Stmt.relocateAll .detach r.statements =
        Stmt.relocateAll .detach (p.statements ++ if as.any isEnd then [] else q.statements) := by
  let s₁ := Stream.ofTokens as.toArray source₁.endPosition
  let s₂ := Stream.ofTokens bs.toArray source₂.endPosition
  let s := Stream.ofTokens (as ++ bs).toArray source.endPosition
  have hs₁ : s₁.Closed := Stream.closed_ofList _ _
  have hs₂ : s₂.Closed := Stream.closed_ofList _ _
  have hs : s.Closed := Stream.closed_ofList _ _
  obtain ⟨n, hn⟩ : ∃ n, n = s₁.last + s₂.last + s.last + 1 := ⟨_, rfl⟩
  obtain ⟨e₁, hrun₁, hend₁, htaken₁⟩ :=
    exists_run hs₁ (show s₁.last < n by omega) (statements_of_ofTokens ha)
  obtain ⟨e₂, hrun₂, hend₂, htaken₂⟩ :=
    exists_run hs₂ (show s₂.last < n by omega) (statements_of_ofTokens hb)
  have helse : s.kindAt as.length ≠ .keyword .else_ := by
    rw [show s.kindAt as.length = s₂.kindAt 0 from Stream.kindAt_append_right _ 0]
    exact not_else_of_reader hrun₂
  obtain ⟨ss, hviews, hlength, hrest⟩ := reader_append hend₁ htaken₁ hlast helse hrun₁
  have he₁ : e₁ ≤ s₁.last := Stream.le_last_of_kindAt hs₁ htaken₁
  have he₂ : e₂ ≤ s₂.last := Stream.le_last_of_kindAt hs₂ htaken₂
  obtain ⟨m, hm⟩ : ∃ m, n = p.statements.length + (m + 1) :=
    ⟨n - p.statements.length - 1, by omega⟩
  have hread {ts : List Stmt} {j : Nat} (hts : reader n (m + 1) s e₁ = .ok (ts, j)) :
      ∃ r, ofTokens (as ++ bs) source = .ok r ∧ r.statements = ss ++ ts :=
    exists_ofTokens (statements_of_run hs (show s.last < n by omega) (hrest hm.symm hts))
  simp only [Stmt.relocateAll_eq_map, List.map_append, ← hviews]
  obtain ⟨hany, hlt⟩ | ⟨hany, rfl, hopen⟩ := end_cases hend₁ htaken₁
  · have hkind : s.kindAt e₁ = .endOfInput :=
      (congrArg Token.kind (Stream.get_append_left source₁.endPosition hlt)).trans hend₁
    obtain ⟨r, hr, hstatements⟩ := hread (run_manyUntil_nil (beq_iff_eq.mpr hkind))
    exact ⟨r, hr, by rw [hstatements, hany]; simp⟩
  · obtain ⟨ts, hviews₂, hts⟩ := reader_behind htaken₂ hopen hrun₂ (show e₂ < m + 1 by omega)
    obtain ⟨r, hr, hstatements⟩ := hread hts
    exact ⟨r, hr, by rw [hstatements, hany, List.map_append, hviews₂]; rfl⟩

/-- A condition without its other branch, and a statement that begins with a parenthesis. -/
theorem semicolon_ends_statements_condition :
    let name (x : String) : Token := ⟨.identifier x, x, default⟩
    let mark (c : Symbol) : Token := ⟨.symbol c, c.text, default⟩
    let as := [⟨.keyword .if_, "if", default⟩, mark .openParen, name "x",
      mark .closeParen, name "y",
      mark .semicolon]
    let bs := [mark .openParen, name "z", mark .closeParen]
    ∃ p q r, ofTokens as ⟨"", ""⟩ = .ok p ∧ ofTokens bs ⟨"", ""⟩ = .ok q ∧
      ofTokens (as ++ bs) ⟨"", ""⟩ = .ok r ∧
      Stmt.relocateAll .detach r.statements =
        Stmt.relocateAll .detach (p.statements ++ q.statements) := by
  intro name mark as bs
  have ha : (ofTokens as ⟨"", ""⟩).isOk = true := by decide +kernel
  have hb : (ofTokens bs ⟨"", ""⟩).isOk = true := by decide +kernel
  cases hp : ofTokens as ⟨"", ""⟩ with
  | error f =>
    rw [hp] at ha
    cases ha
  | ok p =>
    cases hq : ofTokens bs ⟨"", ""⟩ with
    | error f =>
      rw [hq] at hb
      cases hb
    | ok q =>
      obtain ⟨r, hr, hstatements⟩ := semicolon_ends_statements ⟨"", ""⟩ hp hq (by decide)
      exact ⟨p, q, r, rfl, rfl, hr, hstatements⟩

/-- Behind an end of input among the first tokens nothing is read, semicolon or not. -/
theorem statements_behind_early_end :
    let as : List Token := [⟨.endOfInput, "", default⟩, ⟨.symbol .semicolon, ";", default⟩]
    let bs : List Token := [⟨.identifier "x", "x", default⟩]
    ∃ p q r, ofTokens as ⟨"", ""⟩ = .ok p ∧ ofTokens bs ⟨"", ""⟩ = .ok q ∧
      (∀ t ∈ as.getLast?, t.kind = .symbol .semicolon) ∧
      ofTokens (as ++ bs) ⟨"", ""⟩ = .ok r ∧
      Stmt.relocateAll .forget r.statements ≠
        Stmt.relocateAll .forget (p.statements ++ q.statements) :=
  ⟨_, _, _, rfl, rfl, by decide, rfl, nofun⟩

end Program

end ScriptEngine
