import ScriptEngine.Proofs.Syntax.Placement
import ScriptEngine.Proofs.Syntax.RoundTrip
import ScriptEngine.Proofs.Token.Positions

/-!
# Trees tile their tokens

Every reader of the grammar leaves a node that stands where it began and where it stopped. The depth
of nesting carries the induction: a reader gets the next deeper grammar and, with it, the places of
the nodes below. A program is its statements one right behind the other, from the first token to the
end of input.
-/

namespace ScriptEngine

open Token Parse SyntaxError

namespace Expr

variable (o : Origin) (e : Expr)

theorem children_withOrigin : (e.withOrigin o).children = e.children := by
  cases e <;> rfl

theorem function?_withOrigin :
    (Node.expression (e.withOrigin o)).function? = (Node.expression e).function? := by
  cases e <;> rfl

theorem children_of_target? {e : Expr} {t : Target} (h : e.target? = some t) :
    e.children = t.nodes := by
  cases e with
  | identifier | member =>
    cases h
    rfl
  | _ => cases h

end Expr

namespace Grammar

structure Placing (s : Stream) (g : Grammar) : Prop where
  bounded : ∃ n, g = upTo n
  assignment : ∀ i, Reads s i g.assignment fun j e => Placed s i (.expression e) j
  exponent : ∀ i, Reads s i g.exponent fun j e => Placed s i (.expression e) j
  unary : ∀ i, Reads s i g.unary fun j e => Placed s i (.expression e) j
  member : ∀ i, Reads s i g.member fun j e => Placed s i (.expression e) j
  statement : ∀ i, Reads s i g.statement fun j st => Placed s i (.statement st) j

variable {s : Stream} {g : Grammar} {i : Nat}

theorem reads_node {α : Type} {start : Nat} {N : α → Node} {build : Origin → α} (hlt : start < i)
    (horigin : ∀ o, (N (build o)).origin = o)
    (hfunction : ∀ o f, (N (build o)).function? = some f → f.ReadIn s)
    (hchildren : ∀ o, InOrder (Placed s) start (N (build o)).children i) :
    Reads s i (do return build (← originFrom start)) fun j x => Placed s start (N x) j := by
  refine Reads.originFrom_bind fun x j hi hrun => ?_
  cases hrun
  exact ⟨Nat.le_refl i, hi, .intro hlt hi (horigin _) (hfunction _) (hchildren _)⟩

theorem reads_closed {α : Type} {start : Nat} {N : α → Node} {build : Origin → α} (hlt : start < i)
    (horigin : ∀ o, (N (build o)).origin = o) (hplain : ∀ o, (N (build o)).function? = none)
    (hchildren : ∀ o, InOrder (Placed s) start (N (build o)).children i) :
    Reads s i (do return build (← originFrom start)) fun j x => Placed s start (N x) j := by
  refine Reads.originFrom_bind fun x j hi hrun => ?_
  cases hrun
  exact ⟨Nat.le_refl i, hi, .plain hlt hi (horigin _) (hplain _) (hchildren _)⟩

theorem extended_reads {start : Nat} {e : Expr} {build : Origin → Expr} (hlt : start < i)
    (horigin : ∀ o, (build o).origin = o)
    (hplain : ∀ o, (Node.expression (build o)).function? = none)
    (hchildren : ∀ o, InOrder (Placed s) start (build o).children i) :
    Reads s i (do return some (build (← originFrom start)))
      fun j o => Placed s start (.expression (o.getD e)) j :=
  reads_closed (N := fun o : Option Expr => .expression (o.getD e)) hlt horigin hplain hchildren

variable (hs : s.Regular) (hg : Placing s g)
include hs

section Expressions

include hg

theorem block_reads : Reads s i (block g) fun j b => Placed s i (.block b) j := by
  refine Reads.get_bind (Reads.expect_bind hs (Reads.rounds_bind ?_))
  refine (Reads.manyUntil fun k _ => hg.statement k).bind fun k ss hk hss => Reads.expect_bind hs ?_
  refine reads_closed (N := .block) (by omega) (fun _ => rfl) (fun _ => rfl) fun _ => ?_
  exact ((hss.2.inOrder.map fun _ _ _ h => h).from_le (Nat.le_succ i)).to_le (Nat.le_succ k)

theorem functionRest_reads :
    Reads s i (functionRest g) fun j r => ∃ k, i < k ∧ Placed s k (.block r.2) j ∧
      ∀ name, (∀ x ∈ name.toList, ∃ a, s.kindAt a = .identifier x.name) →
        (Function.mk name r.1 r.2).ReadIn s := by
  refine Reads.expect_bind hs ?_
  refine (Reads.separatedBefore hs (S := fun _ x _ => ∃ a, s.kindAt a = .identifier x.name)
    fun k _ => Reads.expectName hs _).bind fun k ps hk hps => Reads.expect_bind hs ?_
  refine (block_reads hs hg).and_run.bind fun j b hj hb => Reads.pure ?_
  obtain ⟨hrun, hlast, hplaced⟩ := hb
  refine ⟨k + 1, by omega, hplaced, fun name hname => ⟨fun x hx => ?_, ?_⟩⟩
  · rcases List.mem_append.mp hx with hx | hx
    · exact hname x hx
    · exact hps.forall_mem (fun _ _ _ h => h) x hx
  · obtain ⟨n, rfl⟩ := hg.bounded
    exact ⟨n, k + 1, j, hplaced.lt, hlast, hplaced.origin, hrun⟩

theorem arguments_reads :
    Reads s i (arguments g) fun j es => i < j ∧ InOrder (Placed s) i (es.map .expression) j := by
  refine Reads.expect_bind hs ?_
  refine (Reads.separatedBefore hs fun k _ => (hg.assignment k).mono fun _ _ _ h => ⟨h.lt, h⟩).bind
    fun k es hk hes => Reads.expect_bind hs (Reads.pure ⟨by omega, ?_⟩)
  exact ((hes.map fun _ _ _ h => h).from_le (Nat.le_succ i)).to_le (Nat.le_succ k)

theorem argumentsIfAny_reads :
    Reads s i (argumentsIfAny g) fun j es => InOrder (Placed s) i (es.map .expression) j := by
  refine Reads.check_bind ?_
  split
  · exact (arguments_reads hs hg).mono fun _ _ _ h => h.2
  · exact Reads.pure (.nil (Nat.le_refl i))

theorem field_reads :
    Reads s i (field g) fun j f => i < j ∧ InOrder (Placed s) i f.nodes j := by
  refine Reads.peek_bind ?_
  cases hkey : fieldKey? (s.get i) with
  | none => exact Reads.of_ne_ok (run_fail_ne_ok _)
  | some key =>
    have hend : s.kindAt i ≠ .endOfInput := fun hk => by
      have hkind : (s.get i).kind = .endOfInput := hk
      simp [fieldKey?, hkind, Token.literalValue?, Kind.literalValue?] at hkey
    refine Reads.advance_bind hs hend (Reads.expect_bind hs ?_)
    refine (hg.assignment _).bind fun j e hj he => Reads.pure ⟨by omega, ?_⟩
    exact (InOrder.singleton he).from_le (by omega)

omit hg in
theorem functionName_reads :
    Reads s i functionName fun _ n => ∀ x ∈ n.toList, ∃ a, s.kindAt a = .identifier x.name := by
  refine Reads.kind_bind ?_
  cases hk : s.kindAt i with
  | identifier name =>
    refine (Reads.expectName hs _).bind fun j x _ hx => Reads.pure fun y hy => ?_
    obtain rfl := List.mem_singleton.mp hy
    exact hx.2
  | _ => exact Reads.pure nofun

omit hg in
theorem leaf_reads {leaf : Origin → Expr} (hend : s.kindAt i ≠ .endOfInput)
    (horigin : ∀ o, (leaf o).origin = o) (hleaf : ∀ o, (leaf o).children = [])
    (hplain : ∀ o, (Node.expression (leaf o)).function? = none) :
    Reads s i (do let _ ← advance; return leaf (← originFrom i))
      fun j e => Placed s i (.expression e) j := by
  refine Reads.advance_bind hs hend (reads_closed (by omega) horigin hplain fun o => ?_)
  rw [Node.children, hleaf]
  exact .nil (by omega)

theorem primary_reads :
    Reads s i (primary g) fun j e => Placed s i (.expression e) j := by
  refine Reads.get_bind (Reads.peek_bind ?_)
  have hend : (s.get i).kind ≠ .endOfInput → s.kindAt i ≠ .endOfInput := id
  cases hk : (s.get i).kind with
  | number form =>
    cases (s.get i).literalValue? with
    | none => exact Reads.of_ne_ok run_unexpected_ne_ok
    | some v => exact leaf_reads hs (hend (hk ▸ nofun)) (fun _ => rfl) (fun _ => rfl) fun _ => rfl
  | string | identifier =>
    exact leaf_reads hs (hend (hk ▸ nofun)) (fun _ => rfl) (fun _ => rfl) fun _ => rfl
  | endOfInput => exact Reads.of_ne_ok run_unexpected_ne_ok
  | keyword w =>
    have hend := hend (hk ▸ nofun)
    cases w with
    | true_ | false_ | null | this =>
      exact leaf_reads hs hend (fun _ => rfl) (fun _ => rfl) fun _ => rfl
    | function =>
      refine Reads.advance_bind hs hend ((functionName_reads hs).bind fun k n hk hn => ?_)
      refine (functionRest_reads hs hg).bind fun j r hj hr => ?_
      obtain ⟨a, ha, hbody, hread⟩ := hr
      have hlt := hbody.lt
      refine reads_node (by omega) (fun _ => rfl) ?_ fun _ => ?_
      · rintro o f ⟨⟩
        exact hread n hn
      · exact (InOrder.singleton hbody).from_le (by omega)
    | _ => exact Reads.of_ne_ok run_unexpected_ne_ok
  | symbol c =>
    have hend := hend (hk ▸ nofun)
    cases c with
    | openParen =>
      -- the node between the parentheses is widened to take them in
      refine Reads.advance_bind hs hend ((hg.assignment _).bind fun k e hk he => ?_)
      refine Reads.expect_bind hs ?_
      refine reads_node (by omega) (fun o => Expr.origin_withOrigin o e) ?_ fun o => ?_
      · intro o f hf
        rw [Expr.function?_withOrigin] at hf
        exact he.function hf
      · rw [Node.children, Expr.children_withOrigin]
        exact (he.children.from_le (Nat.le_succ i)).to_le (Nat.le_succ k)
    | openBracket =>
      refine Reads.advance_bind hs hend (Reads.rounds_bind ?_)
      refine (Reads.separatedUntil hs fun k _ =>
        (hg.assignment k).mono fun _ _ _ h => ⟨h.lt, h⟩).bind fun k es hk hes => ?_
      refine Reads.expect_bind hs ?_
      refine reads_closed (by omega) (fun _ => rfl) (fun _ => rfl) fun _ => ?_
      exact ((hes.map fun _ _ _ h => h).from_le (Nat.le_succ i)).to_le (Nat.le_succ k)
    | openBrace =>
      refine Reads.advance_bind hs hend (Reads.rounds_bind ?_)
      refine (Reads.separatedUntil hs fun k _ => field_reads hs hg).bind fun k fs hk hfs => ?_
      refine Reads.expect_bind hs ?_
      refine reads_closed (by omega) (fun _ => rfl) (fun _ => rfl) fun _ => ?_
      exact ((hfs.flatMap fun _ _ _ h => h).from_le (Nat.le_succ i)).to_le (Nat.le_succ k)
    | _ => exact Reads.of_ne_ok run_unexpected_ne_ok

theorem memberSuffix_reads :
    Reads s i (memberSuffix g) fun j o =>
      match o with
      | some p => i < j ∧ InOrder (Placed s) i p.nodes j
      | none => j = i := by
  refine Reads.eat_bind hs nofun (fun _ => ?_) (Reads.eat_bind hs nofun (fun _ => ?_) ?_)
  · refine (Reads.expectPropertyName hs).bind fun j p hj _ => Reads.pure ⟨by omega, ?_⟩
    exact .nil (by omega)
  · refine (hg.assignment _).bind fun k e hk he => Reads.expect_bind hs (Reads.pure ⟨by omega, ?_⟩)
    exact ((InOrder.singleton he).from_le (Nat.le_succ i)).to_le (Nat.le_succ k)
  · exact Reads.pure rfl

theorem memberStep_reads {start : Nat} {e : Expr} (he : Placed s start (.expression e) i) :
    Reads s i (memberStep g start e) fun j o => Placed s start (.expression (o.getD e)) j := by
  refine (memberSuffix_reads hs hg).bind fun j o hj ho => ?_
  cases o with
  | none =>
    obtain rfl := ho
    exact Reads.pure he
  | some p =>
    have hlt := he.lt
    refine extended_reads (by omega) (fun _ => rfl) (fun _ => rfl) fun _ => ?_
    exact .cons (Nat.le_refl start) he ho.2

theorem callStep_reads {start : Nat} {e : Expr} (he : Placed s start (.expression e) i) :
    Reads s i (callStep g start e) fun j o => Placed s start (.expression (o.getD e)) j := by
  refine Reads.check_bind ?_
  split
  · refine (arguments_reads hs hg).bind fun j es hj hes => ?_
    have hlt := he.lt
    refine extended_reads (by omega) (fun _ => rfl) (fun _ => rfl) fun _ => ?_
    exact .cons (Nat.le_refl start) he hes.2
  · exact memberStep_reads hs hg he

theorem memberHead_reads :
    Reads s i (memberHead g) fun j e => Placed s i (.expression e) j := by
  refine Reads.get_bind (Reads.eat_bind hs nofun (fun _ => ?_) (primary_reads hs hg))
  refine (hg.member _).bind fun k e hk he => ?_
  refine (argumentsIfAny_reads hs hg).bind fun j es hj hes => ?_
  refine reads_closed (by omega) (fun _ => rfl) (fun _ => rfl) fun _ => ?_
  exact .cons (Nat.le_succ i) he hes

theorem readMember_reads :
    Reads s i (readMember g) fun j e => Placed s i (.expression e) j := by
  refine Reads.get_bind ((memberHead_reads hs hg).bind fun k e _ he => Reads.rounds_bind ?_)
  exact Reads.chain (fun _ _ _ h => memberStep_reads hs hg h) he

theorem call_reads : Reads s i (call g) fun j e => Placed s i (.expression e) j := by
  refine Reads.get_bind ((readMember_reads hs hg).bind fun k e _ he => Reads.rounds_bind ?_)
  exact Reads.chain (fun _ _ _ h => callStep_reads hs hg h) he

theorem updated_reads : Reads s i (updated g) fun j e => Placed s i (.expression e) j := by
  refine Reads.get_bind ((call_reads hs hg).bind fun k e hk he => Reads.kind_bind ?_)
  cases hop : updateOp? (s.kindAt k) with
  | none => exact Reads.pure he
  | some op =>
    cases ht : e.target? with
    | none => exact Reads.of_ne_ok (run_fail_ne_ok _)
    | some t =>
      have hend : s.kindAt k ≠ .endOfInput := fun hk => by simp [hk, updateOp?] at hop
      refine Reads.advance_bind hs hend ?_
      refine reads_closed (by omega) (fun _ => rfl) (fun _ => rfl) fun _ => ?_
      have hchildren := he.children
      rw [Node.children, Expr.children_of_target? ht] at hchildren
      exact hchildren.to_le (Nat.le_succ k)

theorem readUnary_reads : Reads s i (readUnary g) fun j e => Placed s i (.expression e) j := by
  refine Reads.get_bind (Reads.kind_bind ?_)
  cases hupdate : updateOp? (s.kindAt i) with
  | some op =>
    have hend : s.kindAt i ≠ .endOfInput := fun hk => by simp [hk, updateOp?] at hupdate
    refine Reads.advance_bind hs hend ((hg.unary _).bind fun k e hk he => ?_)
    cases ht : e.target? with
    | none => exact Reads.of_ne_ok (run_fail_ne_ok _)
    | some t =>
      refine reads_closed (by omega) (fun _ => rfl) (fun _ => rfl) fun _ => ?_
      have hchildren := he.children
      rw [Node.children, Expr.children_of_target? ht] at hchildren
      exact hchildren.from_le (Nat.le_succ i)
  | none =>
    cases hunary : unaryOp? (s.kindAt i) with
    | some op =>
      have hend : s.kindAt i ≠ .endOfInput := fun hk => by simp [hk, unaryOp?] at hunary
      refine Reads.advance_bind hs hend ((hg.unary _).bind fun k e hk he => ?_)
      refine reads_closed (by omega) (fun _ => rfl) (fun _ => rfl) fun _ => ?_
      exact (InOrder.singleton he).from_le (Nat.le_succ i)
    | none => exact updated_reads hs hg

theorem readExponent_reads :
    Reads s i (readExponent g) fun j e => Placed s i (.expression e) j := by
  refine Reads.get_bind ((readUnary_reads hs hg).bind fun k e hk he => ?_)
  refine Reads.eat_bind hs nofun (fun _ => ?_) (Reads.pure he)
  refine (hg.exponent _).bind fun j d hj hd => ?_
  refine reads_closed (by omega) (fun _ => rfl) (fun _ => rfl) fun _ => ?_
  exact .cons (Nat.le_refl i) he ((InOrder.singleton hd).from_le (Nat.le_succ k))

omit hs hg in
theorem operators_join : ∀ row ∈ operators, ∀ p ∈ row, ∀ o l r,
    (p.2 o l r).origin = o ∧ (Node.expression (p.2 o l r)).function? = none ∧
      (p.2 o l r).children = [.expression l, .expression r] := by
  simp only [operators, List.forall_mem_cons, Expr.origin, Node.function?, Expr.children,
    List.not_mem_nil, false_implies, implies_true, and_self]

omit hg in
theorem levelStep_reads {row : List (Symbol × (Origin → Expr → Expr → Expr))}
    (hrow : row ∈ operators)
    {next : Parse Expr} (hnext : ∀ k, Reads s k next fun j e => Placed s k (.expression e) j)
    {start : Nat} {e : Expr} (he : Placed s start (.expression e) i) :
    Reads s i (levelStep (Level.ofRow row) next start e)
      fun j o => Placed s start (.expression (o.getD e)) j := by
  refine Reads.kind_bind ?_
  cases hk : s.kindAt i with
  | symbol c =>
    cases hjoin : Level.ofRow row (.symbol c) with
    | none => exact Reads.pure he
    | some join =>
      have hmem : (c, join) ∈ row := by
        obtain ⟨before, behind, rfl, -⟩ := List.lookup_eq_some_iff.mp hjoin
        simp
      have hjoins := operators_join row hrow _ hmem
      have hlt := he.lt
      refine Reads.advance_bind hs (hk ▸ nofun) ((hnext _).bind fun j d hj hd => ?_)
      refine extended_reads (by omega) (fun o => (hjoins o e d).1) (fun o => (hjoins o e d).2.1)
        fun o => ?_
      rw [(hjoins o e d).2.2]
      exact .cons (Nat.le_refl start) he ((InOrder.singleton hd).from_le (Nat.le_succ i))
  | _ => exact Reads.pure he

theorem ladder_reads {rows : List (List (Symbol × (Origin → Expr → Expr → Expr)))}
    (hrows : ∀ row ∈ rows, row ∈ operators) :
    Reads s i (ladder (readExponent g) (rows.map Level.ofRow))
      fun j e => Placed s i (.expression e) j := by
  induction rows generalizing i with
  | nil => exact readExponent_reads hs hg
  | cons row rows ih =>
    obtain ⟨hrow, hrest⟩ := List.forall_mem_cons.mp hrows
    refine Reads.get_bind ((ih hrest).bind fun k e _ he => Reads.rounds_bind ?_)
    exact Reads.chain (fun _ _ _ h => levelStep_reads hs hrow (fun _ => ih hrest) h) he

theorem conditional_reads :
    Reads s i (conditional g) fun j e => Placed s i (.expression e) j := by
  refine Reads.get_bind ((ladder_reads hs hg fun _ h => h).bind fun k e hk he => ?_)
  refine Reads.eat_bind hs nofun (fun _ => ?_) (Reads.pure he)
  refine (hg.assignment _).bind fun l d hl hd => Reads.expect_bind hs ?_
  refine (hg.assignment _).bind fun j f hj hf => ?_
  refine reads_closed (by omega) (fun _ => rfl) (fun _ => rfl) fun _ => ?_
  exact .cons (Nat.le_refl i) he (.cons (Nat.le_succ k) hd
    ((InOrder.singleton hf).from_le (Nat.le_succ l)))

theorem readAssignment_reads :
    Reads s i (readAssignment g) fun j e => Placed s i (.expression e) j := by
  refine Reads.get_bind ((conditional_reads hs hg).bind fun k e hk he => Reads.kind_bind ?_)
  cases hop : assignOp? (s.kindAt k) with
  | none => exact Reads.pure he
  | some op =>
    cases ht : e.target? with
    | none => exact Reads.of_ne_ok (run_fail_ne_ok _)
    | some t =>
      have hend : s.kindAt k ≠ .endOfInput := fun hk => by simp [hk, assignOp?] at hop
      refine Reads.advance_bind hs hend ((hg.assignment _).bind fun j d hj hd => ?_)
      have hchildren : InOrder (Placed s) i (t.nodes ++ [.expression d]) j := by
        rw [← Expr.children_of_target? ht]
        exact he.children.append ((InOrder.singleton hd).from_le (Nat.le_succ k))
      cases op with
      | none => exact reads_closed (by omega) (fun _ => rfl) (fun _ => rfl) fun _ => hchildren
      | some op => exact reads_closed (by omega) (fun _ => rfl) (fun _ => rfl) fun _ => hchildren

end Expressions

section Statements

theorem semicolon_reads : Reads s i semicolon fun _ _ => True :=
  Reads.eat_bind hs nofun (fun _ => Reads.pure trivial) (Reads.pure trivial)

theorem jumpStatement_reads {build : Origin → Stmt} (hend : s.kindAt i ≠ .endOfInput)
    (horigin : ∀ o, (build o).origin = o) (hleaf : ∀ o, (build o).children = [])
    (hplain : ∀ o, (Node.statement (build o)).function? = none) :
    Reads s i (jumpStatement build) fun j st => Placed s i (.statement st) j := by
  refine Reads.get_bind (Reads.advance_bind hs hend ((semicolon_reads hs).bind fun j _ hj _ => ?_))
  refine reads_closed (by omega) horigin hplain fun o => ?_
  rw [Node.children, hleaf]
  exact .nil (by omega)

theorem emptyStatement_reads (hend : s.kindAt i ≠ .endOfInput) :
    Reads s i emptyStatement fun j st => Placed s i (.statement st) j := by
  refine Reads.get_bind (Reads.advance_bind hs hend ?_)
  exact reads_closed (by omega) (fun _ => rfl) (fun _ => rfl) fun _ => .nil (by omega)

theorem handlerParam_reads : Reads s i handlerParam fun _ _ => True := by
  refine Reads.eat_bind hs nofun (fun _ => ?_) (Reads.pure trivial)
  have hname : Reads s (i + 1) (some <$> expectName .catchName) fun _ _ => True :=
    (Reads.expectName hs _).map fun _ _ _ => trivial
  exact (Reads.unlessAt trivial hname).bind fun _ _ _ _ => Reads.expect_bind hs (Reads.pure trivial)

include hg

theorem declarator_reads :
    Reads s i (declarator g) fun j d => i < j ∧ InOrder (Placed s) i d.nodes j := by
  refine (Reads.expectName hs _).bind fun k x hk hx => ?_
  refine (Reads.behind hs (k := .symbol .assign) nofun
    (S := fun a e b => Placed s a (.expression e) b) (hg.assignment _)).bind fun j o hj ho =>
      Reads.pure ⟨by omega, ?_⟩
  exact (ho.map fun _ _ _ h => h).from_le (by omega)

theorem declaration_reads (hend : s.kindAt i ≠ .endOfInput) :
    Reads s i (declaration g) fun j d =>
      i < j ∧ InOrder (Placed s) i (d.2.flatMap Declarator.nodes) j := by
  refine Reads.advance_bind hs hend (Reads.rounds_bind ?_)
  refine (Reads.separated hs fun k _ => declarator_reads hs hg).bind fun j ds hj hds => ?_
  exact Reads.pure ⟨by omega, (hds.2.flatMap fun _ _ _ h => h).from_le (Nat.le_succ i)⟩

theorem declarationStatement_reads (hend : s.kindAt i ≠ .endOfInput) :
    Reads s i (declarationStatement g) fun j st => Placed s i (.statement st) j := by
  refine Reads.get_bind ((declaration_reads hs hg hend).bind fun k d hk hd => ?_)
  refine (semicolon_reads hs).bind fun j _ hj _ => ?_
  exact reads_closed (by omega) (fun _ => rfl) (fun _ => rfl) fun _ => hd.2.to_le hj

theorem functionDeclaration_reads (hend : s.kindAt i ≠ .endOfInput) :
    Reads s i (functionDeclaration g) fun j st => Placed s i (.statement st) j := by
  refine Reads.get_bind (Reads.advance_bind hs hend ?_)
  refine (Reads.expectName hs _).bind fun k x hk hx => ?_
  refine (functionRest_reads hs hg).bind fun j r hj hr => ?_
  obtain ⟨a, ha, hbody, hread⟩ := hr
  refine reads_node (by omega) (fun _ => rfl) ?_ fun _ => ?_
  · rintro o f ⟨⟩
    refine hread (some x) fun y hy => ?_
    obtain rfl := List.mem_singleton.mp hy
    exact hx.2
  · exact (InOrder.singleton hbody).from_le (by omega)

theorem blockStatement_reads :
    Reads s i (blockStatement g) fun j st => Placed s i (.statement st) j := by
  refine Reads.get_bind ((block_reads hs hg).bind fun j b hj hb => ?_)
  exact reads_closed hb.lt (fun _ => rfl) (fun _ => rfl) fun _ => .singleton hb

theorem branchStatement_reads (hend : s.kindAt i ≠ .endOfInput) :
    Reads s i (branchStatement g) fun j st => Placed s i (.statement st) j := by
  refine Reads.get_bind (Reads.advance_bind hs hend (Reads.expect_bind hs ?_))
  refine (hg.assignment _).bind fun k e hk he => Reads.expect_bind hs ?_
  refine (hg.statement _).bind fun l yes hl hyes => ?_
  refine (Reads.behind hs (k := .keyword .else_) nofun
    (S := fun a st b => Placed s a (.statement st) b) (hg.statement _)).bind fun j no hj hno => ?_
  refine reads_closed (by omega) (fun _ => rfl) (fun _ => rfl) fun _ => ?_
  exact .cons (by omega) he (.cons (Nat.le_succ k) hyes (hno.map fun _ _ _ h => h))

theorem whileStatement_reads (hend : s.kindAt i ≠ .endOfInput) :
    Reads s i (whileStatement g) fun j st => Placed s i (.statement st) j := by
  refine Reads.get_bind (Reads.advance_bind hs hend (Reads.expect_bind hs ?_))
  refine (hg.assignment _).bind fun k e hk he => Reads.expect_bind hs ?_
  refine (hg.statement _).bind fun j body hj hbody => ?_
  refine reads_closed (by omega) (fun _ => rfl) (fun _ => rfl) fun _ => ?_
  exact .cons (by omega) he ((InOrder.singleton hbody).from_le (Nat.le_succ k))

theorem forInit_reads :
    Reads s i (forInit g) fun j o => InOrder (Placed s) i (o.toList.map .statement) j := by
  refine Reads.eat_bind hs nofun (fun _ => Reads.pure (.nil (Nat.le_succ i))) ?_
  refine Reads.get_bind (Reads.kind_bind ?_)
  split
  next hstarts =>
    have hend : s.kindAt i ≠ .endOfInput := fun hk => by simp [startsDeclaration, hk] at hstarts
    refine (declaration_reads hs hg hend).and_run.bind fun k d hk hd => Reads.originFrom_bind ?_
    obtain ⟨-, hlast, hlt, hchildren⟩ := hd
    refine Reads.expect_bind hs (Reads.pure ((InOrder.singleton ?_).to_le (Nat.le_succ k)))
    exact .plain hlt hlast rfl rfl hchildren
  next =>
    refine (hg.assignment i).bind fun k e hk he => Reads.originFrom_bind ?_
    refine Reads.expect_bind hs (Reads.pure ((InOrder.singleton ?_).to_le (Nat.le_succ k)))
    exact .plain he.lt he.le_last rfl rfl (.singleton he)

omit hs in
theorem expressionUnless_reads (c : Symbol) :
    Reads s i (expressionUnless g c) fun j o =>
      InOrder (Placed s) i (o.toList.map .expression) j := by
  refine Reads.unlessAt (.nil (Nat.le_refl i)) ?_
  exact (hg.assignment i).map fun _ _ he => .singleton he

theorem forStatement_reads (hend : s.kindAt i ≠ .endOfInput) :
    Reads s i (forStatement g) fun j st => Placed s i (.statement st) j := by
  refine Reads.get_bind (Reads.advance_bind hs hend (Reads.expect_bind hs ?_))
  refine (forInit_reads hs hg).bind fun k init hk hinit => ?_
  refine (expressionUnless_reads hg _).bind fun l condition hl hcondition => ?_
  refine Reads.expect_bind hs ?_
  refine (expressionUnless_reads hg _).bind fun m update hm hupdate => Reads.expect_bind hs ?_
  refine (hg.statement _).bind fun j body hj hbody => ?_
  refine reads_closed (by omega) (fun _ => rfl) (fun _ => rfl) fun _ => ?_
  have hhead := (hinit.from_le (by omega : i ≤ i + 1 + 1)).append hcondition
  have hparts := hhead.append (hupdate.from_le (Nat.le_succ l))
  exact hparts.append ((InOrder.singleton hbody).from_le (Nat.le_succ m))

theorem caseTest_reads :
    Reads s i (caseTest g) fun j o =>
      InOrder (Placed s) i (o.toList.map .expression) j := by
  refine Reads.eat_bind hs nofun (fun _ => ?_) (Reads.eat_bind hs nofun (fun _ => ?_) ?_)
  · exact (hg.assignment _).map fun _ _ he => (InOrder.singleton he).from_le (Nat.le_succ i)
  · exact Reads.pure (.nil (Nat.le_succ i))
  · exact Reads.of_ne_ok (run_fail_ne_ok _)

theorem switchCase_reads :
    Reads s i (switchCase g) fun j c => InOrder (Placed s) i c.nodes j := by
  refine (caseTest_reads hs hg).bind fun k test hk htest => ?_
  refine Reads.expect_bind hs (Reads.rounds_bind ?_)
  refine (Reads.manyUntil fun l _ => hg.statement l).bind fun j body hj hbody => Reads.pure ?_
  exact htest.append ((hbody.2.inOrder.map fun _ _ _ h => h).from_le (Nat.le_succ k))

theorem switchStatement_reads (hend : s.kindAt i ≠ .endOfInput) :
    Reads s i (switchStatement g) fun j st => Placed s i (.statement st) j := by
  refine Reads.get_bind (Reads.advance_bind hs hend (Reads.expect_bind hs ?_))
  refine (hg.assignment _).bind fun k e hk he => ?_
  refine Reads.expect_bind hs (Reads.expect_bind hs (Reads.rounds_bind ?_))
  refine (Reads.manyUntil fun l _ => switchCase_reads hs hg).bind fun j cases hj hcases => ?_
  refine Reads.expect_bind hs ?_
  refine reads_closed (by omega) (fun _ => rfl) (fun _ => rfl) fun _ => ?_
  have hnodes := hcases.2.inOrder.flatMap fun _ _ _ h => h
  exact .cons (by omega) he ((hnodes.from_le (by omega)).to_le (Nat.le_succ j))

theorem raiseStatement_reads (hend : s.kindAt i ≠ .endOfInput) :
    Reads s i (raiseStatement g) fun j st => Placed s i (.statement st) j := by
  refine Reads.get_bind (Reads.advance_bind hs hend ((hg.assignment _).bind fun k e hk he => ?_))
  refine (semicolon_reads hs).bind fun j _ hj _ => ?_
  refine reads_closed (by omega) (fun _ => rfl) (fun _ => rfl) fun _ => ?_
  exact ((InOrder.singleton he).from_le (Nat.le_succ i)).to_le hj

theorem handler_reads :
    Reads s i (handler g) fun j h => InOrder (Placed s) i (h.toList.flatMap Handler.nodes) j := by
  have hbody : Reads s (i + 1)
      (do let param ← handlerParam; let body ← block g; return Handler.mk param body)
      fun j h => InOrder (Placed s) (i + 1) h.nodes j := by
    refine (handlerParam_reads hs).bind fun k param hk _ => ?_
    refine (block_reads hs hg).bind fun j b hj hb => Reads.pure ?_
    exact (InOrder.singleton hb).from_le hk
  refine (Reads.behind hs (k := .keyword .catch_) nofun
    (S := fun a h b => InOrder (Placed s) a (Handler.nodes h) b) hbody).mono fun j h _ hh => ?_
  exact hh.flatMap fun _ _ _ h => h

theorem finalizer_reads :
    Reads s i (finalizer g) fun j b => InOrder (Placed s) i (b.toList.map .block) j :=
  (Reads.behind hs (k := .keyword .finally_) nofun (S := fun a b j => Placed s a (.block b) j)
    (block_reads hs hg)).mono fun _ _ _ hb => hb.map fun _ _ _ h => h

theorem attemptStatement_reads (hend : s.kindAt i ≠ .endOfInput) :
    Reads s i (attemptStatement g) fun j st => Placed s i (.statement st) j := by
  refine Reads.get_bind (Reads.advance_bind hs hend ((block_reads hs hg).bind fun k b hk hb => ?_))
  refine (handler_reads hs hg).bind fun l h hl hh => ?_
  refine (finalizer_reads hs hg).bind fun j f hj hf => ?_
  split
  · exact Reads.of_ne_ok (run_fail_ne_ok _)
  · refine reads_closed (by omega) (fun _ => rfl) (fun _ => rfl) fun _ => ?_
    exact .cons (Nat.le_succ i) hb (hh.append hf)

omit hs in
theorem returnValue_reads :
    Reads s i (returnValue g) fun j o =>
      InOrder (Placed s) i (o.toList.map .expression) j := by
  refine Reads.kind_bind ?_
  split
  · exact Reads.pure (.nil (Nat.le_refl i))
  · exact (hg.assignment i).map fun _ _ he => .singleton he

theorem returnStatement_reads (hend : s.kindAt i ≠ .endOfInput) :
    Reads s i (returnStatement g) fun j st => Placed s i (.statement st) j := by
  refine Reads.get_bind (Reads.advance_bind hs hend ((returnValue_reads hg).bind
    fun k o hk ho => ?_))
  refine (semicolon_reads hs).bind fun j _ hj _ => ?_
  refine reads_closed (by omega) (fun _ => rfl) (fun _ => rfl) fun _ => ?_
  exact (ho.from_le (Nat.le_succ i)).to_le hj

theorem expressionStatement_reads :
    Reads s i (expressionStatement g) fun j st => Placed s i (.statement st) j := by
  refine Reads.get_bind ((readAssignment_reads hs hg).bind fun k e hk he => ?_)
  have hlt := he.lt
  refine (semicolon_reads hs).bind fun j _ hj _ => ?_
  refine reads_closed (by omega) (fun _ => rfl) (fun _ => rfl) fun _ => ?_
  exact (InOrder.singleton he).to_le hj

theorem readStatement_reads :
    Reads s i (readStatement g) fun j st => Placed s i (.statement st) j := by
  refine Reads.kind_bind ?_
  cases hk : s.kindAt i with
  | keyword w =>
    have hend : s.kindAt i ≠ .endOfInput := hk ▸ nofun
    cases w with
    | var | let_ | const => exact declarationStatement_reads hs hg hend
    | function => exact functionDeclaration_reads hs hg hend
    | if_ => exact branchStatement_reads hs hg hend
    | while_ => exact whileStatement_reads hs hg hend
    | for_ => exact forStatement_reads hs hg hend
    | switch => exact switchStatement_reads hs hg hend
    | break_ | continue_ =>
      exact jumpStatement_reads hs hend (fun _ => rfl) (fun _ => rfl) fun _ => rfl
    | throw_ => exact raiseStatement_reads hs hg hend
    | try_ => exact attemptStatement_reads hs hg hend
    | return_ => exact returnStatement_reads hs hg hend
    | _ => exact expressionStatement_reads hs hg
  | symbol c =>
    have hend : s.kindAt i ≠ .endOfInput := hk ▸ nofun
    cases c with
    | openBrace => exact blockStatement_reads hs hg
    | semicolon => exact emptyStatement_reads hs hend
    | _ => exact expressionStatement_reads hs hg
  | _ => exact expressionStatement_reads hs hg

end Statements

theorem upTo_placing (n : Nat) : Placing s (upTo n) := by
  induction n with
  | zero =>
    refine ⟨⟨0, rfl⟩, ?_, ?_, ?_, ?_, ?_⟩ <;> exact fun i => Reads.of_ne_ok (run_fail_ne_ok _)
  | succ n ih =>
    refine ⟨⟨n + 1, rfl⟩, ?_, ?_, ?_, ?_, ?_⟩
    · exact fun i => readAssignment_reads hs ih
    · exact fun i => readExponent_reads hs ih
    · exact fun i => readUnary_reads hs ih
    · exact fun i => readMember_reads hs ih
    · exact fun i => readStatement_reads hs ih

end Grammar

namespace Program

theorem consecutive_statements {s : Stream} (hs : s.Regular) {program : Block}
    (h : ofStream s = .ok program) :
    program.origin.tokens = Slice.clamp s.tokens 0 s.last ∧
      Consecutive (fun a st b => Placed s a (.statement st) b) 0 program.statements s.last := by
  unfold ofStream at h
  split at h
  next body hbody =>
    cases h
    obtain ⟨j, hrun⟩ := statements_eq_ok.mp hbody
    have hreads : Reads s 0 (manyUntil (· == .endOfInput)
      (Grammar.upTo (s.tokens.size + 1)).statement
        (s.tokens.size + 1)) _ :=
      Reads.manyUntil fun k _ => (Grammar.upTo_placing hs _).statement k
    obtain ⟨-, hj, hstops, hbody⟩ := hreads body j (Nat.zero_le _) hrun
    have hlast : j = s.last := by
      refine Nat.le_antisymm hj (Nat.le_of_not_lt fun hlt => ?_)
      exact hs.goes_on j hlt (beq_iff_eq.mp hstops)
    exact ⟨rfl, hlast ▸ hbody⟩
  next => cases h

end Program

namespace Consecutive

variable {s : Stream}

/-- Nodes right behind each other share no index and leave none out. -/
theorem flatMap_range' {i j : Nat} {sts : List Stmt}
    (h : Consecutive (fun a st b => Placed s a (.statement st) b) i sts j) :
    i ≤ j ∧ (sts.map Node.statement).flatMap (fun n => List.range' n.start (n.stop - n.start)) =
      List.range' i (j - i) := by
  induction h with
  | nil => simp
  | @cons i k j st sts hst hsts ih =>
    have hlt := hst.lt
    refine ⟨by omega, ?_⟩
    rw [List.map_cons, List.flatMap_cons, ih.2, hst.start_eq, hst.stop_eq,
      show j - i = (k - i) + (j - k) by omega, ← List.range'_append_1,
      show i + (k - i) = k by omega]

end Consecutive

namespace Token

theorem Laid.start_le_stop {pre cs : List Char} {ts : List Token} (h : Laid pre ts cs) {t : Token}
    (ht : t ∈ ts) : t.span.start ≤ t.span.stop := by
  obtain ⟨before, after, -, hspan⟩ := h.located ht
  rw [hspan]
  simp only [Text.Position.spanTo, Text.Position.offset_behind_append]
  omega

theorem spanFrom_of_laid {pre cs : List Char} {ts : List Token} {s : Stream} (h : Laid pre ts cs)
    (hs : s.tokens = ts.toArray) {a b : Nat} (hab : a < b) (hb : b < ts.length) :
    spanFrom s a b = ⟨ts[a].span.start, ts[b - 1].span.stop, ts[a].span.line,
      ts[a].span.column⟩ := by
  rw [spanFrom, if_pos hab, Stream.get_of_tokens hs (show a < ts.length by omega),
    Stream.get_of_tokens hs (show b - 1 < ts.length by omega)]
  rcases Nat.lt_or_eq_of_le (show a ≤ b - 1 by omega) with hlt | rfl
  · have horder := List.pairwise_iff_getElem.mp h.ordered a (b - 1) (by omega) (by omega) hlt
    have hlast := h.start_le_stop (List.getElem_mem (show b - 1 < ts.length by omega))
    unfold Text.Span.merge
    rw [if_neg (by omega), Nat.max_eq_right (by omega)]
  · simp [Text.Span.merge]

end Token

open Relation

/-- The ranges of the nodes of a program tile its tokens. A node other than the program itself has a
range that is not empty and does not reach the end of input, and its span is that of its tokens. The
children of a node lie inside it, one behind the other. The statements of the program, in order,
take up each token before the end of input once. -/
theorem ranges_tile_tokens {source : Text.Source} {tokens : List Token} {program : Block}
    (hscan : Token.scanSource source = .ok tokens)
    (hprogram : Program.ofSource source = .ok program) :
    ∃ before final, tokens = before ++ [final] ∧ final.kind = .endOfInput ∧
      (∀ t ∈ before, t.kind ≠ .endOfInput) ∧
      (∀ n, TransGen Node.HasChild (.block program) n →
        n.origin.tokens.all = tokens.toArray ∧ n.start < n.stop ∧ n.stop ≤ before.length ∧
        ∃ t u, before[n.start]? = some t ∧ before[n.stop - 1]? = some u ∧
          n.origin.span = ⟨t.span.start, u.span.stop, t.span.line, t.span.column⟩) ∧
      (∀ n, ReflTransGen Node.HasChild (.block program) n →
        (∀ m ∈ n.children, n.start ≤ m.start ∧ m.stop ≤ n.stop) ∧
        n.children.Pairwise fun m m' => m.stop ≤ m'.start) ∧
      (Node.block program).children.flatMap (fun n => List.range' n.start (n.stop - n.start)) =
        List.range before.length := by
  obtain ⟨ts, hts, hfrom, hstream⟩ := Program.ofSource_cases hprogram
  obtain rfl : tokens = ts := Except.ok.inj (hscan.symm.trans hts)
  have htokens := Stream.tokens_ofTokens hfrom source.endPosition
  generalize Stream.ofTokens tokens.toArray source.endPosition = s at hstream htokens
  have hlaid : Laid [] tokens source.text.toList := laid_of_scanFrom hfrom
  obtain ⟨before, hbefore, hproper⟩ := hlaid.ends
  have hlength : tokens.length = before.length + 1 := by simp [hbefore]
  have hlast : s.last = before.length := by simp [Stream.last_of_tokens htokens, hlength]
  obtain ⟨hroot, hconsecutive⟩ :=
    Program.consecutive_statements (Stream.regular_of_scanFrom hfrom htokens) hstream
  have hchildren : InOrder (Placed s) 0 (Node.block program).children s.last :=
    hconsecutive.inOrder.map fun _ _ _ h => h
  -- every node below the program has a place
  have hplaced : ∀ n, TransGen Node.HasChild (.block program) n → ∃ a b, Placed s a n b := by
    intro n hn
    obtain ⟨c, hc, hcn⟩ := TransGen.head'_iff.mp hn
    obtain ⟨a, b, -, -, hplaced⟩ := hchildren.of_mem (fun _ _ _ h => h.le) hc
    exact hplaced.placed_below hcn
  refine ⟨before, _, hbefore, rfl, fun t ht => (hproper t ht).1, fun n hn => ?_, fun n hn => ?_, ?_⟩
  · obtain ⟨a, b, hn⟩ := hplaced n hn
    have hab := hn.lt
    have hb : b ≤ before.length := hlast ▸ hn.le_last
    rw [hn.start_eq, hn.stop_eq, hn.origin]
    refine ⟨htokens, hab, hb, before[a], before[b - 1], by simp, by simp, ?_⟩
    have hspan := spanFrom_of_laid hlaid htokens hab (by omega)
    simpa [originAt, hbefore, show a < before.length by omega, show b - 1 < before.length by omega]
      using hspan
  · have hinside : ∃ a b, n.start = a ∧ n.stop = b ∧ InOrder (Placed s) a n.children b := by
      rcases reflTransGen_iff_eq_or_transGen.mp hn with rfl | hn
      · refine ⟨0, s.last, ?_, ?_, hchildren⟩
        · simp [Node.start, Node.origin, hroot, Slice.clamp]
        · simp [Node.stop, Node.origin, hroot, Slice.clamp, Stream.last]
      · obtain ⟨a, b, hn⟩ := hplaced n hn
        exact ⟨a, b, hn.start_eq, hn.stop_eq, hn.children⟩
    obtain ⟨a, b, rfl, rfl, hchildren⟩ := hinside
    constructor
    · intro m hm
      obtain ⟨c, d, hc, hd, hm⟩ := hchildren.of_mem (fun _ _ _ h => h.le) hm
      rw [hm.start_eq, hm.stop_eq]
      exact ⟨hc, hd⟩
    · refine hchildren.pairwise (fun _ _ _ h => h.le) fun _ _ _ _ _ _ hm hbc hm' => ?_
      rw [hm.stop_eq, hm'.start_eq]
      exact hbc
  · rw [List.range_eq_range', ← hlast]
    exact hconsecutive.flatMap_range'.2

theorem ranges_tile_tokens_two_statements :
    let source : Text.Source := ⟨"<input>", "(a.b) = c\nif (d) e(); else {}"⟩
    ∃ program, Program.ofSource source = .ok program ∧
      (Node.block program).children.map (fun n => (n.start, n.stop, n.origin.span)) =
        [(0, 7, ⟨0, 9, 1, 1⟩), (7, 18, ⟨10, 29, 2, 1⟩)] ∧
      ∀ n, TransGen Node.HasChild (.block program) n → n.start < n.stop ∧ n.stop ≤ 18 := by
  intro source
  have hranges : (Program.ofSource source).toOption.map (fun program =>
      (Node.block program).children.map fun n => (n.start, n.stop, n.origin.span)) =
        some [(0, 7, ⟨0, 9, 1, 1⟩), (7, 18, ⟨10, 29, 2, 1⟩)] := by
    decide +kernel
  have hlength : (Token.scanSource source).toOption.map List.length = some 19 := by decide +kernel
  obtain ⟨program, hprogram, hstatements⟩ := Program.exists_of_map hranges
  obtain ⟨tokens, hscan, -, -⟩ := Program.ofSource_cases hprogram
  obtain ⟨before, final, htokens, -, -, hnodes, -⟩ := ranges_tile_tokens hscan hprogram
  rw [hscan, htokens] at hlength
  have hbefore : before.length = 18 := by simpa [Except.toOption] using hlength
  refine ⟨program, hprogram, hstatements, fun n hn => ?_⟩
  obtain ⟨-, hlt, hle, -⟩ := hnodes n hn
  exact ⟨hlt, hbefore ▸ hle⟩

end ScriptEngine
