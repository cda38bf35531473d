import Mathlib.Tactic.IntervalCases
import ScriptEngine.Proofs.Syntax.Run

/-!
# Levels of expressions

The readers of expressions by their number on the ladder, the kinds of tokens that make each of them
go on, and how what one of them has read becomes what the looser ones read: as soon as the next
token does not make them go on.
-/

namespace ScriptEngine

namespace Grammar

open Parse Token

def levelAt (r : Nat) : Level :=
  levels.getD (r - 3) fun _ => none

/-- The reader of a level, from assignments at one to primary expressions at nineteen. -/
def readerAt (g : Grammar) : Nat → Parse Expr
  | 1 => readAssignment g
  | 2 => conditional g
  | 15 => readUnary g
  | 16 => updated g
  | 17 => call g
  | 18 => readMember g
  | 19 => primary g
  | r => ladder (readExponent g) (levels.drop (r - 3))

def continues : Nat → Kind → Bool
  | 1, k => (assignOp? k).isSome
  | 2, k => k == .symbol .question
  | 14, k => k == .symbol .power
  | 16, k => (updateOp? k).isSome
  | 17, k => k == .symbol .openParen
  | 18, k => k == .symbol .dot || k == .symbol .openBracket
  | r, k => (levelAt r k).isSome

/-- No reader from a level on goes on at a token. -/
def closedFrom (r : Nat) (k : Kind) : Bool :=
  (List.range' r (19 - r)).all fun q => !continues q k

theorem not_continues_of_closedFrom {r q : Nat} {k : Kind} (h : closedFrom r k) (hr : r ≤ q)
    (hq : q ≤ 18) : continues q k = false := by
  simp only [closedFrom, List.all_eq_true, List.mem_range'_1, Bool.not_eq_true'] at h
  exact h q (by omega)

theorem closedFrom_mono {r q : Nat} {k : Kind} (h : closedFrom r k) (hr : r ≤ q) :
    closedFrom q k := by
  simp only [closedFrom, List.all_eq_true, List.mem_range'_1, Bool.not_eq_true'] at h ⊢
  exact fun x hx => h x (by omega)

variable {g : Grammar} {s : Stream} {i j : Nat} {e : Expr}

theorem not_operator_of_primary (h : primary g s i = .ok (e, j)) :
    updateOp? (s.kindAt i) = none ∧ unaryOp? (s.kindAt i) = none ∧ s.kindAt i ≠ .keyword .new := by
  unfold primary at h
  rw [run_bind run_get, run_bind run_peek] at h
  simp only [Stream.kindAt]
  cases hk : (s.get i).kind with
  | number | string | identifier | endOfInput => simp [updateOp?, unaryOp?]
  | keyword w =>
    rw [hk] at h
    cases w with
    | typeof | new => exact absurd h (run_unexpected_ne_ok _)
    | _ => simp [updateOp?, unaryOp?]
  | symbol c =>
    rw [hk] at h
    cases c with
    | increment | decrement | bang | minus | plus | bitNot =>
      exact absurd h (run_unexpected_ne_ok _)
    | _ => simp [updateOp?, unaryOp?]

theorem exists_memberHead_of_updated (h : updated g s i = .ok (e, j)) :
    ∃ e' j', memberHead g s i = .ok (e', j') := by
  unfold updated at h
  rw [run_bind run_get] at h
  obtain ⟨_, _, hcall, -⟩ := of_run_bind h
  unfold call at hcall
  rw [run_bind run_get] at hcall
  obtain ⟨_, _, hmember, -⟩ := of_run_bind hcall
  unfold readMember at hmember
  rw [run_bind run_get] at hmember
  obtain ⟨e', j', hhead, -⟩ := of_run_bind hmember
  exact ⟨e', j', hhead⟩

theorem not_operator_of_updated (h : updated g s i = .ok (e, j)) :
    updateOp? (s.kindAt i) = none ∧ unaryOp? (s.kindAt i) = none := by
  obtain ⟨e', j', hhead⟩ := exists_memberHead_of_updated h
  by_cases hnew : s.kindAt i = .keyword .new
  · rw [hnew]
    exact ⟨rfl, rfl⟩
  · rw [run_memberHead_of_ne hnew] at hhead
    obtain ⟨hupdate, hunary, -⟩ := not_operator_of_primary hhead
    exact ⟨hupdate, hunary⟩

theorem readerAt_level {r : Nat} (hr : 3 ≤ r) (hr' : r ≤ 13) :
    readerAt g r = (do
      let start ← get
      let left ← readerAt g (r + 1)
      chain (levelStep (levelAt r) (readerAt g (r + 1)) start) (← rounds) left) := by
  interval_cases r <;> rfl

theorem continues_level {r : Nat} (hr : 3 ≤ r) (hr' : r ≤ 13) (k : Kind) :
    continues r k = (levelAt r k).isSome := by
  interval_cases r <;> rfl

theorem run_callStep_none {start : Nat} (hcall : continues 17 (s.kindAt j) = false)
    (hmember : continues 18 (s.kindAt j) = false) : callStep g start e s j = .ok (none, j) := by
  simp only [continues, beq_eq_false_iff_ne, Bool.or_eq_false_iff] at hcall hmember
  rw [run_callStep_of_ne hcall]
  exact run_memberStep_none (run_memberSuffix_none hmember.1 hmember.2)

/-- What the next tighter reader has read, a reader has read too, unless it goes on. -/
theorem run_readerAt_of_next {r : Nat} (hr : 1 ≤ r) (hr' : r ≤ 18)
    (h : readerAt g (r + 1) s i = .ok (e, j)) (hj : j ≤ s.last) (hk : closedFrom r (s.kindAt j)) :
    readerAt g r s i = .ok (e, j) := by
  have hstop := not_continues_of_closedFrom hk (Nat.le_refl r) hr'
  by_cases hlevel : 3 ≤ r ∧ r ≤ 13
  · rw [continues_level hlevel.1 hlevel.2, Option.isSome_eq_false_iff,
      Option.isNone_iff_eq_none] at hstop
    rw [readerAt_level hlevel.1 hlevel.2]
    exact (reaches_head h).stop hj (run_levelStep_none hstop)
  · have hcases : r = 1 ∨ r = 2 ∨ r = 14 ∨ r = 15 ∨ r = 16 ∨ r = 17 ∨ r = 18 := by omega
    obtain rfl | rfl | rfl | rfl | rfl | rfl | rfl := hcases
    · simp only [continues, Option.isSome_eq_false_iff, Option.isNone_iff_eq_none] at hstop
      exact run_readAssignment h hstop
    · simp only [continues, beq_eq_false_iff_ne] at hstop
      exact run_conditional h hstop
    · simp only [continues, beq_eq_false_iff_ne] at hstop
      exact run_readExponent h hstop
    · obtain ⟨hupdate, hunary⟩ := not_operator_of_updated h
      exact (run_readUnary hupdate hunary).trans h
    · simp only [continues, Option.isSome_eq_false_iff, Option.isNone_iff_eq_none] at hstop
      exact run_updated h hstop
    · have hmember := not_continues_of_closedFrom hk (by omega : 17 ≤ 18) (Nat.le_refl 18)
      exact (reaches_head h).stop hj (run_callStep_none hstop hmember)
    · simp only [continues, Bool.or_eq_false_iff, beq_eq_false_iff_ne] at hstop
      obtain ⟨-, -, hnew⟩ := not_operator_of_primary h
      have hhead : memberHead g s i = .ok (e, j) := (run_memberHead_of_ne hnew).trans h
      refine (reaches_head hhead).stop hj (run_memberStep_none ?_)
      exact run_memberSuffix_none hstop.1 hstop.2

theorem run_readerAt_of_le {r q : Nat} (hr : 1 ≤ r) (hrq : r ≤ q) (hq : q ≤ 19)
    (h : readerAt g q s i = .ok (e, j)) (hj : j ≤ s.last) (hk : closedFrom r (s.kindAt j)) :
    readerAt g r s i = .ok (e, j) := by
  obtain ⟨d, rfl⟩ := Nat.exists_eq_add_of_le hrq
  induction d generalizing r with
  | zero => exact h
  | succ d ih =>
    rw [show r + (d + 1) = r + 1 + d by omega] at h
    have hnext : readerAt g (r + 1) s i = .ok (e, j) :=
      ih (by omega) (closedFrom_mono hk (by omega)) (by omega) (by omega) h
    exact run_readerAt_of_next hr (by omega) hnext hj hk

theorem exists_readUnary_of_readAssignment (h : readAssignment g s i = .ok (e, j)) :
    ∃ e' j', readUnary g s i = .ok (e', j') := by
  unfold readAssignment at h
  rw [run_bind run_get] at h
  obtain ⟨e₁, j₁, hconditional, -⟩ := of_run_bind h
  unfold conditional at hconditional
  rw [run_bind run_get] at hconditional
  obtain ⟨e₂, j₂, hladder, -⟩ := of_run_bind hconditional
  clear h hconditional
  generalize levels = ls at hladder
  induction ls generalizing e₂ j₂ with
  | nil =>
    unfold ladder readExponent at hladder
    rw [run_bind run_get] at hladder
    obtain ⟨e₃, j₃, hunary, -⟩ := of_run_bind hladder
    exact ⟨e₃, j₃, hunary⟩
  | cons level rest ih =>
    unfold ladder at hladder
    rw [run_bind run_get] at hladder
    obtain ⟨e₃, j₃, hrest, -⟩ := of_run_bind hladder
    exact ih e₃ j₃ hrest

def closes (k : Kind) : Bool :=
  k == .symbol .closeParen || k == .symbol .closeBracket

theorem not_closes_of_primary (h : primary g s i = .ok (e, j)) : closes (s.kindAt i) = false := by
  unfold primary at h
  rw [run_bind run_get, run_bind run_peek] at h
  simp only [closes, Bool.or_eq_false_iff, beq_eq_false_iff_ne]
  constructor
  · intro hk
    have ht : (s.get i).kind = .symbol .closeParen := hk
    rw [ht] at h
    exact run_unexpected_ne_ok _ h
  · intro hk
    have ht : (s.get i).kind = .symbol .closeBracket := hk
    rw [ht] at h
    exact run_unexpected_ne_ok _ h

theorem not_closes_of_readAssignment (h : readAssignment g s i = .ok (e, j)) :
    closes (s.kindAt i) = false := by
  obtain ⟨e', j', hunary⟩ := exists_readUnary_of_readAssignment h
  by_contra hcloses
  have hkind : s.kindAt i = .symbol .closeParen ∨ s.kindAt i = .symbol .closeBracket := by
    simpa only [closes, Bool.not_eq_false, Bool.or_eq_true, beq_iff_eq] using hcloses
  have hoperators : updateOp? (s.kindAt i) = none ∧ unaryOp? (s.kindAt i) = none := by
    rcases hkind with hk | hk <;> rw [hk] <;> exact ⟨rfl, rfl⟩
  have hnew : s.kindAt i ≠ .keyword .new := by
    rcases hkind with hk | hk <;> rw [hk] <;> exact nofun
  rw [run_readUnary hoperators.1 hoperators.2] at hunary
  obtain ⟨e'', j'', hhead⟩ := exists_memberHead_of_updated hunary
  rw [run_memberHead_of_ne hnew] at hhead
  exact hcloses (not_closes_of_primary hhead)

def isChain (r : Nat) : Bool :=
  (3 ≤ r && r ≤ 13) || r == 17 || r == 18

theorem isChain_iff {r : Nat} : isChain r = true ↔ 3 ≤ r ∧ r ≤ 13 ∨ r = 17 ∨ r = 18 := by
  simp [isChain, or_assoc]

def stepAt (g : Grammar) : Nat → Nat → Expr → Parse (Option Expr)
  | 17 => callStep g
  | 18 => memberStep g
  | r => levelStep (levelAt r) (readerAt g (r + 1))

/-- The reader of a level has come to an index with an expression; a chain may go on from it. -/
def Arrives (g : Grammar) (r : Nat) (s : Stream) (i : Nat) (e : Expr) (j : Nat) : Prop :=
  if isChain r then Reaches (readerAt g r) (stepAt g r) s i e j else readerAt g r s i = .ok (e, j)

variable {r : Nat}

theorem stepAt_level (hr : 3 ≤ r) (hr' : r ≤ 13) :
    stepAt g r = levelStep (levelAt r) (readerAt g (r + 1)) := by
  unfold stepAt
  split
  · omega
  · omega
  · rfl

theorem Arrives.stop (h : Arrives g r s i e j) (hj : j ≤ s.last) (hk : closedFrom r (s.kindAt j)) :
    readerAt g r s i = .ok (e, j) := by
  unfold Arrives at h
  split at h
  next hchain =>
    have hcases := isChain_iff.mp hchain
    have hstop := not_continues_of_closedFrom hk (Nat.le_refl r) (by omega)
    obtain hlevel | rfl | rfl := hcases
    · rw [stepAt_level hlevel.1 hlevel.2] at h
      rw [continues_level hlevel.1 hlevel.2, Option.isSome_eq_false_iff,
        Option.isNone_iff_eq_none] at hstop
      exact h.stop hj (run_levelStep_none hstop)
    · have hmember := not_continues_of_closedFrom hk (by omega : 17 ≤ 18) (Nat.le_refl 18)
      exact h.stop hj (run_callStep_none hstop hmember)
    · simp only [continues, Bool.or_eq_false_iff, beq_eq_false_iff_ne] at hstop
      exact h.stop hj (run_memberStep_none (run_memberSuffix_none hstop.1 hstop.2))
  next => exact h

theorem arrives_of_next (hr : isChain r) (h : readerAt g (r + 1) s i = .ok (e, j)) :
    Arrives g r s i e j := by
  unfold Arrives
  rw [if_pos hr]
  obtain hlevel | rfl | rfl := isChain_iff.mp hr
  · rw [stepAt_level hlevel.1 hlevel.2, readerAt_level hlevel.1 hlevel.2]
    exact reaches_head h
  · exact reaches_head h
  · obtain ⟨-, -, hnew⟩ := not_operator_of_primary h
    have hhead : memberHead g s i = .ok (e, j) := (run_memberHead_of_ne hnew).trans h
    exact reaches_head hhead

theorem Arrives.step {e' : Expr} {k : Nat} (hr : isChain r) (h : Arrives g r s i e k)
    (hk : k < s.last) (hstep : stepAt g r i e s k = .ok (some e', j)) (hj : k < j) :
    Arrives g r s i e' j := by
  unfold Arrives at h ⊢
  rw [if_pos hr] at h ⊢
  exact h.step hk hstep hj

end Grammar

end ScriptEngine
