import ScriptEngine.Proofs.Syntax.MirroredStatements
import ScriptEngine.Syntax.Program

/-!
# Reading nodes again

The tokens of a statement, by themselves, are read as that statement, and the tokens of an
expression between parentheses are read as that expression. A program knows the reader of each of
its nodes; the same reader finds the same node in the copy, and from there the looser readers take
it over.
-/

namespace ScriptEngine

open Token Outline Parse Mirrors Grammar

theorem Program.statements_eq_ok {s : Stream} {body : List Stmt} :
    Program.statements s = .ok body ↔
      ∃ j, Parse.manyUntil (· == .endOfInput) (upTo (s.tokens.size + 1)).statement
        (s.tokens.size + 1) s 0 = .ok (body, j) := by
  unfold Program.statements
  dsimp only
  constructor
  · intro h
    split at h
    next hrun =>
      cases h
      exact ⟨_, hrun⟩
    next => cases h
  · rintro ⟨j, hrun⟩
    split
    next hrun' =>
      cases hrun.symm.trans hrun'
      rfl
    next hrun' => cases hrun.symm.trans hrun'

theorem readIn_of_ofStream {s : Stream} (hs : s.Regular) {program : Block}
    (h : Program.ofStream s = .ok program) : ∀ n ∈ program.outline, n.ReadIn s := by
  unfold Program.ofStream at h
  split at h
  next body hbody =>
    cases h
    obtain ⟨j, hrun⟩ := Program.statements_eq_ok.mp hbody
    have hitem : ∀ y, 0 ≤ y → Mirrors (.alone s hs 0) False y (upTo (s.tokens.size + 1)).statement
        (upTo 2).statement fun z st st' => y < z ∧ st.Kept s st' :=
      fun y _ => kept_statement (upTo_mirrored (.alone s hs 0) (Nat.succ_pos y)) nofun
    have hall : ∀ m, Mirrors (.alone s hs 0) False 0 (Parse.manyUntil (· == .endOfInput) _ m)
        (Parse.manyUntil (· == .endOfInput) _ 1) _ :=
      fun m => manyUntil hitem Nat.one_pos
    obtain ⟨y, body', -, -, -, hkept, -⟩ := hall _ body j (Nat.zero_le _) hrun
    rw [Block.outline, List.forall_mem_cons]
    exact ⟨trivial, (Kept.stmts hkept).2⟩
  next => cases h

theorem reaches_of_partAt {W : Window} {n r x m : Nat} {g' : Grammar} {e : Expr} {j : Nat}
    (hg : ChainMirrored W n r x g') (hlast : W.base + x ≤ W.source.last)
    (h : partAt (upTo n) r m W.source (W.base + x) = .ok (e, j)) :
    ∃ y e', j = W.base + y ∧ PartFound W n r x y e e' ∧
      Reaches (readerAt (upTo n) r) (stepAt (upTo n) r) W.source (W.base + x) e j := by
  induction m generalizing e j with
  | zero =>
    have hhead := run_partAt_zero.mp h
    have hfound : Mirrors W False x _ _ _ := hg.headFound
    obtain ⟨y, e', rfl, -, -, he, -⟩ := hfound e j hlast hhead
    refine ⟨y, e', rfl, he, ?_⟩
    rw [readerAt_chain hg.isChain]
    exact reaches_head hhead
  | succ m ih =>
    obtain ⟨d, k, hpart, hstep⟩ := run_partAt_succ.mp h
    obtain ⟨y, d', rfl, hd, hreaches⟩ := ih hpart
    have hround : Mirrors W False y _ _ _ := hg.roundFound hd
    obtain ⟨z, o', rfl, hyz, hz, ho, -⟩ := hround _ j hd.2.1 hstep
    cases ho with
    | more hlt he => exact ⟨z, _, rfl, he, hreaches.step (by omega) hstep (by omega)⟩

theorem Program.statements_of_readStatement {s : Stream} {st : Stmt} (hs : s.Regular)
    (hlast : 0 < s.last) (h : readStatement (upTo s.tokens.size) s 0 = .ok (st, s.last)) :
    Program.statements s = .ok [st] := by
  refine Program.statements_eq_ok.mpr ⟨s.last, ?_⟩
  refine run_manyUntil_cons ?_ h ?_
  · simpa using hs.goes_on 0 hlast
  · have hsize : ∃ m, s.tokens.size = m + 1 := ⟨s.tokens.size - 1, by have := s.size_pos; omega⟩
    obtain ⟨m, hm⟩ := hsize
    rw [hm]
    exact run_manyUntil_nil (by simp [hs.ends])

theorem reread_assignment {W : Window} {e : Expr} {j n' : Nat} (hcopy : W.copy.Regular)
    (hj : j = W.base + W.length) (hlast : j ≤ W.source.last) (hn' : W.length < n')
    (h : ReadsExpr W.source W.base e j) :
    ∃ e', readAssignment (upTo n') W.copy W.place = .ok (e', W.place + W.length) ∧
      e'.same e = true := by
  obtain ⟨n, r, hr, hr', hread⟩ := h
  have hg : Mirrored W 0 (upTo n) (upTo n') := upTo_mirrored W (by omega)
  have hclosed : closedFrom 1 (W.copy.kindAt (W.place + W.length)) := by
    rcases W.stops with hk | hk <;> rw [hk] <;> decide
  -- the same reader comes to the end of the copy
  have hcopied : ∃ e', readerAt (upTo n') r W.copy W.place = .ok (e', W.place + W.length) ∧
      e'.same e = true := by
    rcases hread with hrun | ⟨hchain, m, hrun⟩
    · have hmirrors : Mirrors W True 0 _ _ _ := readerAt_mirrors hg hr hr'
      obtain ⟨y, e', hy, -, -, hfinds, hrun'⟩ := hmirrors e j (by omega) hrun
      obtain rfl : y = W.length := by omega
      exact ⟨e', hrun' (.inr ⟨trivial, rfl⟩), hfinds.below.1⟩
    · have hmirrors : Mirrors W True 0 _ _ _ := (chainMirrored_of_isChain hg hchain).part m
      obtain ⟨y, e', hy, -, -, hfinds, hrun'⟩ := hmirrors e j (by omega) hrun
      obtain rfl : y = W.length := by omega
      have hpart := hrun' (.inr ⟨trivial, rfl⟩)
      have hgcopy : Mirrored (.alone W.copy hcopy W.place) 0 (upTo n') (upTo 1) :=
        upTo_mirrored _ Nat.one_pos
      obtain ⟨_, _, -, -, hreaches⟩ :=
        reaches_of_partAt (chainMirrored_of_isChain hgcopy hchain) (Nat.le_of_add_right_le W.fits)
          hpart
      have harrives : Arrives (upTo n') r W.copy W.place e' (W.place + W.length) := by
        rw [Arrives, if_pos hchain]
        exact hreaches
      exact ⟨e', harrives.stop W.fits (closedFrom_mono hclosed hr), hfinds.below.1⟩
  obtain ⟨e', hrun, hsame⟩ := hcopied
  exact ⟨e', run_readerAt_of_le (by omega) hr hr' hrun W.fits hclosed, hsame⟩

theorem reread_statement {s s' : Stream} {i j : Nat} {st : Stmt} (hs : s.Regular) (hs' : s'.Regular)
    (hij : i < j) (hj : j ≤ s.last) (h : ReadsStmt s i st j) (hlast : s'.last = j - i)
    (hwords : ∀ x < j - i, (s'.get x).word = (s.get (i + x)).word) :
    ∃ st', Program.statements s' = .ok [st'] ∧ st'.same st = true := by
  obtain ⟨n, hrun⟩ := h
  let W : Window :=
    { source := s, copy := s', base := i, place := 0, length := j - i, regular := hs
      fits := by omega
      agrees := fun x hx => by simpa using hwords x hx
      stops := .inl (by rw [Nat.zero_add, ← hlast]; exact hs'.ends) }
  have hdepth : W.length < 0 + s'.tokens.size := by
    have := s'.size_pos
    simp only [W, Stream.last] at hlast ⊢
    omega
  have hstop : True → W.stop = .endOfInput := by
    intro _
    simp only [Window.stop, W, Nat.zero_add]
    rw [← hlast]
    exact hs'.ends
  obtain ⟨y, st', hy, -, -, ⟨-, hkept⟩, hrun'⟩ :=
    kept_statement (upTo_mirrored W hdepth) hstop st j (by simp only [W]; omega) hrun
  obtain rfl : y = j - i := by simp only [W] at hy; omega
  have hread := hrun' (.inr ⟨trivial, rfl⟩)
  simp only [W, Nat.zero_add, ← hlast] at hread
  exact ⟨st', Program.statements_of_readStatement hs' (by omega) hread, hkept.1⟩

theorem Program.statements_of_grouped {s : Stream} {n j : Nat} {e : Expr} (hs : s.Regular)
    (hn : s.tokens.size = n + 1) (hlast : s.last = j + 1) (hopen : s.kindAt 0 = .symbol .openParen)
    (hread : readAssignment (upTo n) s 1 = .ok (e, j)) (hclose : s.kindAt j = .symbol .closeParen) :
    Program.statements s =
      .ok [.expression (originAt s 0 s.last) (e.withOrigin (originAt s 0 s.last))] := by
  have hprimary : readerAt (upTo (n + 1)) 19 s 0 =
    .ok (e.withOrigin (originAt s 0 s.last), s.last) := by
    rw [hlast]
    exact run_primary_paren (by omega) hopen hread (by omega) hclose
  have hexpr : readAssignment (upTo (n + 1)) s 0 =
    .ok (e.withOrigin (originAt s 0 s.last), s.last) :=
    run_readerAt_of_le (r := 1) (by omega) (by omega) (by omega) hprimary (Nat.le_refl _)
      (by rw [hs.ends]; decide)
  have hstatement : readStatement (upTo (n + 1)) s 0 =
      .ok (.expression (originAt s 0 s.last) (e.withOrigin (originAt s 0 s.last)), s.last) := by
    rw [run_readStatement_paren hopen]
    exact run_expressionStatement hexpr (by rw [hs.ends]; nofun)
  exact Program.statements_of_readStatement hs (by omega) (hn ▸ hstatement)

theorem reread_expression {s s' : Stream} {i j : Nat} {e : Expr} (hs : s.Regular) (hs' : s'.Regular)
    (hij : i < j) (hj : j ≤ s.last) (h : ReadsExpr s i e j) (hlast : s'.last = j - i + 2)
    (hopen : s'.kindAt 0 = .symbol .openParen)
    (hwords : ∀ x < j - i, (s'.get (1 + x)).word = (s.get (i + x)).word)
    (hclose : s'.kindAt (1 + (j - i)) = .symbol .closeParen) :
    ∃ o e', Program.statements s' = .ok [.expression o e'] ∧ e'.same e = true := by
  let W : Window :=
    { source := s, copy := s', base := i, place := 1, length := j - i, regular := hs
      fits := by omega
      agrees := hwords
      stops := .inr hclose }
  obtain ⟨n, hn⟩ : ∃ n, s'.tokens.size = n + 1 :=
    ⟨s'.tokens.size - 1, by have := s'.size_pos; omega⟩
  have hdepth : W.length < n := by
    simp only [W, Stream.last] at hlast ⊢
    omega
  obtain ⟨e', hread, hsame⟩ :=
    reread_assignment (W := W) hs' (by simp only [W]; omega) hj hdepth h
  have hstatements := Program.statements_of_grouped hs' hn (j := 1 + (j - i)) (by omega)
    hopen hread hclose
  exact ⟨_, _, hstatements, (Expr.same_withOrigin _ _ _).trans hsame⟩

end ScriptEngine
