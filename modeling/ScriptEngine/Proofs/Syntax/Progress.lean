import ScriptEngine.Proofs.Syntax.Levels
import ScriptEngine.Proofs.Syntax.Steps
import ScriptEngine.Syntax.Program

/-!
# Readers make progress

Every reader of statements and of expressions takes at least one token or fails, and nests only
behind a token it has taken. So a bound on the depth that exceeds the number of tokens left is never
reached: readers with different such bounds take the same steps. A program comes out of any list of
tokens, or a fault at one of them.
-/

namespace ScriptEngine

open SyntaxError Token

namespace Grammar

open Parse Proceeds

/-- The nesting readers of two grammars are in step behind an index, and take tokens. -/
structure Nested (s : Stream) (i : Nat) (g g' : Grammar) : Prop where
  assignment : ∀ k, i < k → Proceeds s (fun j _ => k < j) k g.assignment g'.assignment
  exponent : ∀ k, i < k → Proceeds s (fun j _ => k < j) k g.exponent g'.exponent
  unary : ∀ k, i < k → Proceeds s (fun j _ => k < j) k g.unary g'.unary
  member : ∀ k, i < k → Proceeds s (fun j _ => k < j) k g.member g'.member
  statement : ∀ k, i < k → Proceeds s (fun j _ => k < j) k g.statement g'.statement

variable {s : Stream} {i : Nat} {g g' : Grammar}

theorem Nested.from_le (h : Nested s i g g') {k : Nat} (hik : i ≤ k) : Nested s k g g' where
  assignment := fun j hj => h.assignment j (by omega)
  exponent := fun j hj => h.exponent j (by omega)
  unary := fun j hj => h.unary j (by omega)
  member := fun j hj => h.member j (by omega)
  statement := fun j hj => h.statement j (by omega)

theorem Nested.beyond (hi : s.last ≤ i) : Nested s i g g' where
  assignment := fun _ hk => Proceeds.beyond (by omega)
  exponent := fun _ hk => Proceeds.beyond (by omega)
  unary := fun _ hk => Proceeds.beyond (by omega)
  member := fun _ hk => Proceeds.beyond (by omega)
  statement := fun _ hk => Proceeds.beyond (by omega)

variable (hs : s.Closed)
include hs

section Expressions

theorem functionName_proceeds :
    Proceeds s (fun _ _ => True) i functionName functionName := by
  refine kind_bind ?_
  cases s.kindAt i with
  | identifier name => exact (expectName hs _).bind fun _ _ _ _ => pure trivial
  | _ => exact pure trivial

theorem leaf_proceeds {leaf : Origin → Expr} (hend : s.kindAt i ≠ .endOfInput) :
    Proceeds s (fun j _ => i < j) i (do let _ ← advance; return leaf (← originFrom i))
      (do let _ ← advance; return leaf (← originFrom i)) :=
  advance_bind hs hend (originFrom_bind (Nat.lt_succ_self i) fun _ => pure (Nat.lt_succ_self i))

variable (hg : Nested s i g g')
include hg

theorem block_proceeds : Proceeds s (fun j _ => i < j) i (block g) (block g') := by
  refine get_bind (expect_bind hs (rounds_bind ?_))
  refine (manyUntil (fun k hk => hg.statement k hk) (s.last_lt_rounds _)
    (s.last_lt_rounds _)).bind fun k _ hk _ => ?_
  exact expect_bind hs (originFrom_bind (by omega) fun _ => pure (by omega))

theorem functionRest_proceeds :
    Proceeds s (fun j _ => i < j) i (functionRest g) (functionRest g') := by
  refine expect_bind hs ?_
  refine (separatedBefore hs fun k _ => expectName hs _).bind fun k _ hk _ => expect_bind hs ?_
  exact (block_proceeds hs (hg.from_le (by omega))).bind fun j _ _ hj => pure (by omega)

theorem arguments_proceeds : Proceeds s (fun j _ => i < j) i (arguments g) (arguments g') := by
  refine expect_bind hs ?_
  refine (separatedBefore hs fun k hk => hg.assignment k hk).bind fun k _ hk _ => ?_
  exact expect_bind hs (pure (by omega))

theorem argumentsIfAny_proceeds :
    Proceeds s (fun _ _ => True) i (argumentsIfAny g) (argumentsIfAny g') := by
  refine check_bind ?_
  split
  · exact (arguments_proceeds hs hg).mono fun _ _ _ _ => trivial
  · exact pure trivial

theorem field_proceeds : Proceeds s (fun j _ => i < j) i (field g) (field g') := by
  refine peek_bind ?_
  cases hkey : fieldKey? (s.get i) with
  | none => exact fail nofun
  | some key =>
    have hend : s.kindAt i ≠ .endOfInput := fun hk => by
      have hkind : (s.get i).kind = .endOfInput := hk
      simp [fieldKey?, hkind, Token.literalValue?, Kind.literalValue?] at hkey
    refine advance_bind hs hend (expect_bind hs ?_)
    exact (hg.assignment _ (by omega)).bind fun j _ _ hj => pure (by omega)

theorem primary_proceeds : Proceeds s (fun j _ => i < j) i (primary g) (primary g') := by
  refine get_bind (peek_bind ?_)
  have hend : (s.get i).kind ≠ .endOfInput → s.kindAt i ≠ .endOfInput := id
  cases hk : (s.get i).kind with
  | number form =>
    cases (s.get i).literalValue? with
    | none => exact unexpected
    | some v => exact leaf_proceeds hs (hend (hk ▸ nofun))
  | string | identifier => exact leaf_proceeds hs (hend (hk ▸ nofun))
  | endOfInput => exact unexpected
  | keyword w =>
    have hend := hend (hk ▸ nofun)
    cases w with
    | true_ | false_ | null | this => exact leaf_proceeds hs hend
    | function =>
      refine advance_bind hs hend ((functionName_proceeds hs).bind fun k _ hk _ => ?_)
      refine (functionRest_proceeds hs (hg.from_le (by omega))).bind fun j _ _ hj => ?_
      exact originFrom_bind (by omega) fun _ => pure (by omega)
    | _ => exact unexpected
  | symbol c =>
    have hend := hend (hk ▸ nofun)
    cases c with
    | openParen =>
      refine advance_bind hs hend ((hg.assignment _ (by omega)).bind fun k _ _ hk => ?_)
      exact expect_bind hs (originFrom_bind (by omega) fun _ => pure (by omega))
    | openBracket =>
      refine advance_bind hs hend (rounds_bind ?_)
      refine (separatedUntil hs (fun k hk => hg.assignment k hk) (s.last_lt_rounds _)
        (s.last_lt_rounds _)).bind fun k _ hk _ => ?_
      exact expect_bind hs (originFrom_bind (by omega) fun _ => pure (by omega))
    | openBrace =>
      refine advance_bind hs hend (rounds_bind ?_)
      refine (separatedUntil hs (fun k hk => field_proceeds hs (hg.from_le (by omega)))
        (s.last_lt_rounds _) (s.last_lt_rounds _)).bind fun k _ hk _ => ?_
      exact expect_bind hs (originFrom_bind (by omega) fun _ => pure (by omega))
    | _ => exact unexpected

theorem memberSuffix_proceeds :
    Proceeds s (fun j o => o.isSome → i < j) i (memberSuffix g) (memberSuffix g') := by
  refine eat_bind hs nofun (fun _ => ?_) (eat_bind hs nofun (fun _ => ?_) (pure nofun))
  · exact (expectPropertyName hs).bind fun j _ _ hj => pure fun _ => by omega
  · refine (hg.assignment _ (by omega)).bind fun k _ _ hk => ?_
    exact expect_bind hs (pure fun _ => by omega)

theorem memberStep_proceeds {start : Nat} (hstart : start < i) (e : Expr) :
    Proceeds s (fun j o => o.isSome → i < j) i (memberStep g start e) (memberStep g' start e) := by
  refine (memberSuffix_proceeds hs hg).bind fun j o hj ho => ?_
  cases o with
  | none => exact pure nofun
  | some p =>
    have hlt := ho rfl
    exact originFrom_bind (by omega) fun _ => pure fun _ => hlt

theorem callStep_proceeds {start : Nat} (hstart : start < i) (e : Expr) :
    Proceeds s (fun j o => o.isSome → i < j) i (callStep g start e) (callStep g' start e) := by
  refine check_bind ?_
  split
  · refine (arguments_proceeds hs hg).bind fun j _ _ hj => ?_
    exact originFrom_bind (by omega) fun _ => pure fun _ => hj
  · exact memberStep_proceeds hs hg hstart e

theorem memberHead_proceeds : Proceeds s (fun j _ => i < j) i (memberHead g) (memberHead g') := by
  refine get_bind (eat_bind hs nofun (fun _ => ?_) (primary_proceeds hs hg))
  refine (hg.member _ (by omega)).bind fun k _ _ hk => ?_
  refine (argumentsIfAny_proceeds hs (hg.from_le (by omega))).bind fun j _ hj _ => ?_
  exact originFrom_bind (by omega) fun _ => pure (by omega)

theorem readMember_proceeds : Proceeds s (fun j _ => i < j) i (readMember g) (readMember g') := by
  refine get_bind ((memberHead_proceeds hs hg).bind fun k e _ hk => rounds_bind ?_)
  refine Proceeds.mono (chain (fun m x hm => ?_) (s.last_lt_rounds k) (s.last_lt_rounds k))
    fun j _ hj _ => by omega
  exact memberStep_proceeds hs (hg.from_le (by omega)) (by omega) x

theorem call_proceeds : Proceeds s (fun j _ => i < j) i (call g) (call g') := by
  refine get_bind ((readMember_proceeds hs hg).bind fun k e _ hk => rounds_bind ?_)
  refine Proceeds.mono (chain (fun m x hm => ?_) (s.last_lt_rounds k) (s.last_lt_rounds k))
    fun j _ hj _ => by omega
  exact callStep_proceeds hs (hg.from_le (by omega)) (by omega) x

theorem updated_proceeds : Proceeds s (fun j _ => i < j) i (updated g) (updated g') := by
  refine get_bind ((call_proceeds hs hg).bind fun k e _ hk => kind_bind ?_)
  cases hop : updateOp? (s.kindAt k) with
  | none => exact pure hk
  | some op =>
    cases e.target? with
    | none => exact fail nofun
    | some t =>
      have hend : s.kindAt k ≠ .endOfInput := fun hk => by simp [hk, updateOp?] at hop
      exact advance_bind hs hend (originFrom_bind (by omega) fun _ => pure (by omega))

theorem readUnary_proceeds : Proceeds s (fun j _ => i < j) i (readUnary g) (readUnary g') := by
  refine get_bind (kind_bind ?_)
  cases hupdate : updateOp? (s.kindAt i) with
  | some op =>
    have hend : s.kindAt i ≠ .endOfInput := fun hk => by simp [hk, updateOp?] at hupdate
    refine advance_bind hs hend ((hg.unary _ (by omega)).bind fun k e _ hk => ?_)
    cases e.target? with
    | none => exact fail (by decide)
    | some t => exact originFrom_bind (by omega) fun _ => pure (by omega)
  | none =>
    cases hunary : unaryOp? (s.kindAt i) with
    | some op =>
      have hend : s.kindAt i ≠ .endOfInput := fun hk => by simp [hk, unaryOp?] at hunary
      refine advance_bind hs hend ((hg.unary _ (by omega)).bind fun k e _ hk => ?_)
      exact originFrom_bind (by omega) fun _ => pure (by omega)
    | none => exact updated_proceeds hs hg

theorem readExponent_proceeds :
    Proceeds s (fun j _ => i < j) i (readExponent g) (readExponent g') := by
  refine get_bind ((readUnary_proceeds hs hg).bind fun k e _ hk => ?_)
  refine eat_bind hs nofun (fun _ => ?_) (pure hk)
  refine (hg.exponent _ (by omega)).bind fun j _ _ hj => ?_
  exact originFrom_bind (by omega) fun _ => pure (by omega)

end Expressions

section Levels

theorem levelStep_proceeds {level : Level} (hlevel : level .endOfInput = none)
    {next next' : Parse Expr} (hnext : ∀ k, i < k → Proceeds s (fun j _ => k < j) k next next')
    {start : Nat} (hstart : start < i) (e : Expr) :
    Proceeds s (fun j o => o.isSome → i < j) i (levelStep level next start e)
      (levelStep level next' start e) := by
  refine kind_bind ?_
  cases hjoin : level (s.kindAt i) with
  | none => exact pure nofun
  | some join =>
    have hend : s.kindAt i ≠ .endOfInput := fun hk => by simp [hk, hlevel] at hjoin
    refine advance_bind hs hend ((hnext _ (by omega)).bind fun j _ _ hj => ?_)
    exact originFrom_bind (by omega) fun _ => pure fun _ => by omega

theorem ladder_proceeds {operand operand' : Parse Expr}
    (hoperand : ∀ k, i ≤ k → Proceeds s (fun j _ => k < j) k operand operand') (rows : List Level)
    (hrows : ∀ level ∈ rows, level .endOfInput = none) :
    Proceeds s (fun j _ => i < j) i (ladder operand rows) (ladder operand' rows) := by
  induction rows generalizing i with
  | nil => exact hoperand i (Nat.le_refl i)
  | cons level rest ih =>
    obtain ⟨hlevel, hrest⟩ := List.forall_mem_cons.mp hrows
    refine get_bind ((ih hoperand hrest).bind fun k e _ hk => rounds_bind ?_)
    refine Proceeds.mono (chain (fun m x hm => ?_) (s.last_lt_rounds k) (s.last_lt_rounds k))
      fun j _ hj _ => by omega
    refine levelStep_proceeds hs hlevel (fun n hn => ?_) (by omega) x
    exact ih (fun k' hk' => hoperand k' (by omega)) hrest

omit hs in
theorem levels_endOfInput : ∀ level ∈ levels, level .endOfInput = none := by
  intro level hlevel
  obtain ⟨row, -, rfl⟩ := List.mem_map.mp hlevel
  rfl

variable (hg : Nested s i g g')
include hg

theorem levels_proceed (n : Nat) :
    Proceeds s (fun j _ => i < j) i (ladder (readExponent g) (levels.drop n))
      (ladder (readExponent g') (levels.drop n)) :=
  ladder_proceeds hs (fun _ hk => readExponent_proceeds hs (hg.from_le hk)) _
    fun level hlevel => levels_endOfInput level (List.mem_of_mem_drop hlevel)

theorem conditional_proceeds : Proceeds s (fun j _ => i < j) i (conditional g)
    (conditional g') := by
  refine get_bind ((levels_proceed hs hg 0).bind fun k test _ hk => ?_)
  refine eat_bind hs nofun (fun _ => ?_) (pure hk)
  refine (hg.assignment _ (by omega)).bind fun m _ _ hm => expect_bind hs ?_
  refine (hg.assignment _ (by omega)).bind fun j _ _ hj => ?_
  exact originFrom_bind (by omega) fun _ => pure (by omega)

theorem readAssignment_proceeds :
    Proceeds s (fun j _ => i < j) i (readAssignment g) (readAssignment g') := by
  refine get_bind ((conditional_proceeds hs hg).bind fun k left _ hk => kind_bind ?_)
  cases hop : assignOp? (s.kindAt k) with
  | none => exact pure hk
  | some op =>
    cases left.target? with
    | none => exact fail nofun
    | some t =>
      have hend : s.kindAt k ≠ .endOfInput := fun hk => by simp [hk, assignOp?] at hop
      refine advance_bind hs hend ((hg.assignment _ (by omega)).bind fun j _ _ hj => ?_)
      cases op with
      | none | some op => exact originFrom_bind (by omega) fun _ => pure (by omega)

theorem readerAt_proceeds (r : Nat) :
    Proceeds s (fun j _ => i < j) i (readerAt g r) (readerAt g' r) := by
  unfold readerAt
  split
  · exact readAssignment_proceeds hs hg
  · exact conditional_proceeds hs hg
  · exact readUnary_proceeds hs hg
  · exact updated_proceeds hs hg
  · exact call_proceeds hs hg
  · exact readMember_proceeds hs hg
  · exact primary_proceeds hs hg
  · exact levels_proceed hs hg _

end Levels

section Statements

theorem semicolon_proceeds {α : Type} {Q : Nat → α → Prop} {f f' : Unit → Parse α}
    (h : ∀ k, i ≤ k → Proceeds s Q k (f ()) (f' ())) :
    Proceeds s Q i (semicolon >>= f) (semicolon >>= f') := by
  have hsemicolon : Proceeds s (fun _ _ => True) i semicolon semicolon :=
    eat_bind hs nofun (fun _ => pure trivial) (pure trivial)
  exact hsemicolon.bind fun k _ hk _ => h k hk

theorem closed_proceeds {build : Origin → Stmt} {start : Nat} (hstart : start < i) :
    Proceeds s (fun j _ => start < j) i (do semicolon; return build (← originFrom start))
      (do semicolon; return build (← originFrom start)) :=
  semicolon_proceeds hs fun _ hk => originFrom_bind (by omega) fun _ => pure (by omega)

theorem jumpStatement_proceeds {build : Origin → Stmt} (hk : s.kindAt i ≠ .endOfInput) :
    Proceeds s (fun j _ => i < j) i (jumpStatement build) (jumpStatement build) :=
  get_bind (advance_bind hs hk (closed_proceeds hs (Nat.lt_succ_self i)))

theorem emptyStatement_proceeds (hk : s.kindAt i ≠ .endOfInput) :
    Proceeds s (fun j _ => i < j) i emptyStatement emptyStatement :=
  get_bind (advance_bind hs hk
    (originFrom_bind (Nat.lt_succ_self i) fun _ => pure (Nat.lt_succ_self i)))

theorem handlerParam_proceeds : Proceeds s (fun _ _ => True) i handlerParam handlerParam := by
  refine eat_bind hs nofun (fun _ => ?_) (pure trivial)
  refine Proceeds.bind (unlessAt ((expectName hs _).map fun _ _ _ => trivial)) fun k _ _ _ => ?_
  exact expect_bind hs (pure trivial)

variable (hg : Nested s i g g')
include hg

theorem declarator_proceeds : Proceeds s (fun j _ => i < j) i (declarator g) (declarator g') := by
  refine (expectName hs _).bind fun k _ _ hk => ?_
  have hinit : Proceeds s (fun _ _ => True) (k + 1) g.assignment g'.assignment :=
    (hg.assignment _ (by omega)).mono fun _ _ _ _ => trivial
  exact (behind hs (.symbol .assign) nofun hinit).bind fun j _ hj _ => pure (by omega)

theorem declaration_proceeds (hk : s.kindAt i ≠ .endOfInput) :
    Proceeds s (fun j _ => i < j) i (declaration g) (declaration g') := by
  refine advance_bind hs hk (rounds_bind ?_)
  refine (separated hs (fun k hk => declarator_proceeds hs (hg.from_le (by omega)))
    (s.last_lt_rounds _) (s.last_lt_rounds _)).bind fun j _ _ hj => ?_
  exact pure (by omega)

theorem declarationStatement_proceeds (hk : s.kindAt i ≠ .endOfInput) :
    Proceeds s (fun j _ => i < j) i (declarationStatement g) (declarationStatement g') := by
  refine get_bind ((declaration_proceeds hs hg hk).bind fun j _ _ hj => ?_)
  exact closed_proceeds hs hj

theorem functionDeclaration_proceeds (hk : s.kindAt i ≠ .endOfInput) :
    Proceeds s (fun j _ => i < j) i (functionDeclaration g) (functionDeclaration g') := by
  refine get_bind (advance_bind hs hk ((expectName hs _).bind fun k _ _ hk => ?_))
  refine (functionRest_proceeds hs (hg.from_le (by omega))).bind fun j _ _ hj => ?_
  exact originFrom_bind (by omega) fun _ => pure (by omega)

theorem blockStatement_proceeds :
    Proceeds s (fun j _ => i < j) i (blockStatement g) (blockStatement g') := by
  refine get_bind ((block_proceeds hs hg).bind fun j _ _ hj => ?_)
  exact originFrom_bind hj fun _ => pure hj

theorem branchStatement_proceeds (hk : s.kindAt i ≠ .endOfInput) :
    Proceeds s (fun j _ => i < j) i (branchStatement g) (branchStatement g') := by
  refine get_bind (advance_bind hs hk (expect_bind hs ?_))
  refine (hg.assignment _ (by omega)).bind fun k _ _ hk => expect_bind hs ?_
  refine (hg.statement _ (by omega)).bind fun m _ _ hm => ?_
  have hno : Proceeds s (fun _ _ => True) (m + 1) g.statement g'.statement :=
    (hg.statement _ (by omega)).mono fun _ _ _ _ => trivial
  refine (behind hs (.keyword .else_) nofun hno).bind fun j _ hj _ => ?_
  exact originFrom_bind (by omega) fun _ => pure (by omega)

theorem whileStatement_proceeds (hk : s.kindAt i ≠ .endOfInput) :
    Proceeds s (fun j _ => i < j) i (whileStatement g) (whileStatement g') := by
  refine get_bind (advance_bind hs hk (expect_bind hs ?_))
  refine (hg.assignment _ (by omega)).bind fun k _ _ hk => expect_bind hs ?_
  refine (hg.statement _ (by omega)).bind fun j _ _ hj => ?_
  exact originFrom_bind (by omega) fun _ => pure (by omega)

omit hs in
theorem expressionUnless_proceeds {c : Symbol} {k : Nat} (hik : i < k) :
    Proceeds s (fun _ _ => True) k (expressionUnless g c) (expressionUnless g' c) :=
  unlessAt ((hg.assignment k hik).map fun _ _ _ => trivial)

theorem forInit_proceeds {k : Nat} (hik : i < k) :
    Proceeds s (fun _ _ => True) k (forInit g) (forInit g') := by
  refine eat_bind hs nofun (fun _ => pure trivial) (get_bind (kind_bind ?_))
  split
  next hstarts =>
    have hk : s.kindAt k ≠ .endOfInput := fun hk => by simp [hk, startsDeclaration] at hstarts
    refine (declaration_proceeds hs (hg.from_le (by omega)) hk).bind fun j _ _ hj => ?_
    exact originFrom_bind hj fun _ => expect_bind hs (pure trivial)
  next =>
    refine (hg.assignment k hik).bind fun j _ _ hj => ?_
    exact originFrom_bind hj fun _ => expect_bind hs (pure trivial)

theorem forStatement_proceeds (hk : s.kindAt i ≠ .endOfInput) :
    Proceeds s (fun j _ => i < j) i (forStatement g) (forStatement g') := by
  refine get_bind (advance_bind hs hk (expect_bind hs ?_))
  refine (forInit_proceeds hs hg (by omega)).bind fun k _ hk _ => ?_
  refine (expressionUnless_proceeds hg (by omega)).bind fun m _ hm _ => expect_bind hs ?_
  refine (expressionUnless_proceeds hg (by omega)).bind fun n _ hn _ => expect_bind hs ?_
  refine (hg.statement _ (by omega)).bind fun j _ _ hj => ?_
  exact originFrom_bind (by omega) fun _ => pure (by omega)

theorem caseTest_proceeds : Proceeds s (fun j _ => i < j) i (caseTest g) (caseTest g') := by
  refine eat_bind hs nofun (fun _ => ?_) (eat_bind hs nofun (fun _ => ?_) (fail nofun))
  · exact (hg.assignment _ (by omega)).bind fun j _ _ hj => pure (by omega)
  · exact pure (by omega)

theorem switchCase_proceeds : Proceeds s (fun j _ => i < j) i (switchCase g) (switchCase g') := by
  refine (caseTest_proceeds hs hg).bind fun k _ _ hk => expect_bind hs (rounds_bind ?_)
  refine (manyUntil (fun k' hk' => hg.statement k' (by omega)) (s.last_lt_rounds _)
    (s.last_lt_rounds _)).bind fun j _ hj _ => ?_
  exact pure (by omega)

theorem switchStatement_proceeds (hk : s.kindAt i ≠ .endOfInput) :
    Proceeds s (fun j _ => i < j) i (switchStatement g) (switchStatement g') := by
  refine get_bind (advance_bind hs hk (expect_bind hs ?_))
  refine (hg.assignment _ (by omega)).bind fun k _ _ hk => ?_
  refine expect_bind hs (expect_bind hs (rounds_bind ?_))
  refine (manyUntil (fun k' hk' => switchCase_proceeds hs (hg.from_le (by omega)))
    (s.last_lt_rounds _) (s.last_lt_rounds _)).bind fun j _ hj _ => ?_
  exact expect_bind hs (originFrom_bind (by omega) fun _ => pure (by omega))

theorem raiseStatement_proceeds (hk : s.kindAt i ≠ .endOfInput) :
    Proceeds s (fun j _ => i < j) i (raiseStatement g) (raiseStatement g') := by
  refine get_bind (advance_bind hs hk ((hg.assignment _ (by omega)).bind fun j _ _ hj => ?_))
  exact closed_proceeds hs (by omega)

theorem handler_proceeds : Proceeds s (fun _ _ => True) i (handler g) (handler g') := by
  refine behind hs _ nofun ((handlerParam_proceeds hs).bind fun k _ hk _ => ?_)
  exact (block_proceeds hs (hg.from_le (by omega))).bind fun _ _ _ _ => pure trivial

theorem finalizer_proceeds : Proceeds s (fun _ _ => True) i (finalizer g) (finalizer g') :=
  behind hs _ nofun ((block_proceeds hs (hg.from_le (by omega))).mono fun _ _ _ _ => trivial)

theorem attemptStatement_proceeds (hk : s.kindAt i ≠ .endOfInput) :
    Proceeds s (fun j _ => i < j) i (attemptStatement g) (attemptStatement g') := by
  refine get_bind (advance_bind hs hk ?_)
  refine (block_proceeds hs (hg.from_le (by omega))).bind fun k _ _ hk => ?_
  refine (handler_proceeds hs (hg.from_le (by omega))).bind fun m caught hm _ => ?_
  refine (finalizer_proceeds hs (hg.from_le (by omega))).bind fun j final hj _ => ?_
  split
  · exact fail nofun
  · exact originFrom_bind (by omega) fun _ => pure (by omega)

omit hs in
theorem returnValue_proceeds {k : Nat} (hik : i < k) :
    Proceeds s (fun _ _ => True) k (returnValue g) (returnValue g') := by
  refine kind_bind ?_
  split
  · exact pure trivial
  · exact (hg.assignment k hik).map fun _ _ _ => trivial

theorem returnStatement_proceeds (hk : s.kindAt i ≠ .endOfInput) :
    Proceeds s (fun j _ => i < j) i (returnStatement g) (returnStatement g') := by
  refine get_bind (advance_bind hs hk ?_)
  refine (returnValue_proceeds hg (by omega)).bind fun j _ hj _ => ?_
  exact closed_proceeds hs (by omega)

theorem expressionStatement_proceeds :
    Proceeds s (fun j _ => i < j) i (expressionStatement g) (expressionStatement g') := by
  refine get_bind ((readAssignment_proceeds hs hg).bind fun j _ _ hj => ?_)
  exact closed_proceeds hs hj

theorem readStatement_proceeds :
    Proceeds s (fun j _ => i < j) i (readStatement g) (readStatement g') := by
  refine kind_bind ?_
  split
  next hk => exact declarationStatement_proceeds hs hg (hk ▸ nofun)
  next hk => exact declarationStatement_proceeds hs hg (hk ▸ nofun)
  next hk => exact declarationStatement_proceeds hs hg (hk ▸ nofun)
  next hk => exact functionDeclaration_proceeds hs hg (hk ▸ nofun)
  next => exact blockStatement_proceeds hs hg
  next hk => exact branchStatement_proceeds hs hg (hk ▸ nofun)
  next hk => exact whileStatement_proceeds hs hg (hk ▸ nofun)
  next hk => exact forStatement_proceeds hs hg (hk ▸ nofun)
  next hk => exact switchStatement_proceeds hs hg (hk ▸ nofun)
  next hk => exact jumpStatement_proceeds hs (hk ▸ nofun)
  next hk => exact jumpStatement_proceeds hs (hk ▸ nofun)
  next hk => exact raiseStatement_proceeds hs hg (hk ▸ nofun)
  next hk => exact attemptStatement_proceeds hs hg (hk ▸ nofun)
  next hk => exact returnStatement_proceeds hs hg (hk ▸ nofun)
  next hk => exact emptyStatement_proceeds hs (hk ▸ nofun)
  next => exact expressionStatement_proceeds hs hg

end Statements

/-- Two bounds on the depth that exceed the number of tokens left are as good as each other. -/
theorem nested_upTo {n n' : Nat} (hn : s.last ≤ i + n) (hn' : s.last ≤ i + n') :
    Nested s i (upTo n) (upTo n') := by
  induction n generalizing i n' with
  | zero => exact .beyond (by omega)
  | succ n ih =>
    cases n' with
    | zero => exact .beyond (by omega)
    | succ n' =>
      have hdeeper (k : Nat) (hk : i < k) : Nested s k (upTo n) (upTo n') :=
        ih (by omega) (by omega)
      exact {
        assignment := fun k hk => readAssignment_proceeds hs (hdeeper k hk)
        exponent := fun k hk => readExponent_proceeds hs (hdeeper k hk)
        unary := fun k hk => readUnary_proceeds hs (hdeeper k hk)
        member := fun k hk => readMember_proceeds hs (hdeeper k hk)
        statement := fun k hk => readStatement_proceeds hs (hdeeper k hk) }

theorem statement_proceeds {n n' : Nat} (hn : s.last < i + n) (hn' : s.last < i + n') :
    Proceeds s (fun j _ => i < j) i (upTo n).statement (upTo n').statement := by
  intro hi
  obtain ⟨m, rfl⟩ : ∃ m, n = m + 1 := ⟨n - 1, by omega⟩
  obtain ⟨m', rfl⟩ : ∃ m', n' = m' + 1 := ⟨n' - 1, by omega⟩
  exact readStatement_proceeds hs (nested_upTo hs (by omega) (by omega)) hi

end Grammar

namespace Program

open Parse Grammar

def reader (depth count : Nat) : Parse (List Stmt) :=
  manyUntil (· == .endOfInput) (upTo depth).statement count

theorem reader_inStep {s : Stream} (hs : s.Closed) {n n' m m' : Nat} (hn : s.last < n)
    (hn' : s.last < n') (hm : s.last < m) (hm' : s.last < m') :
    InStep s (fun j _ => s.kindAt j = .endOfInput) 0 (reader n m) (reader n' m') := by
  refine ((Proceeds.manyUntil (fun k _ => ?_) (by omega) (by omega)) (Nat.zero_le _)).mono
    fun j _ hj => by simpa using hj
  exact statement_proceeds hs (by omega) (by omega)

theorem statements_eq (s : Stream) :
    statements s = (reader (s.tokens.size + 1) (s.tokens.size + 1) s 0).map Prod.fst := by
  simp only [statements, reader, ReaderT.run, StateT.run]
  cases manyUntil (· == .endOfInput) (upTo (s.tokens.size + 1)).statement (s.tokens.size + 1) s 0
    <;> rfl

theorem ofStream_cases {s : Stream} (hs : s.Closed) :
    (∃ program, ofStream s = .ok program) ∨
      ∃ c, c ≠ .tooDeep ∧ ∃ j < s.tokens.size, ofStream s = .error (.atToken c (s.get j)) := by
  have hlast : s.last < s.tokens.size + 1 := Nat.zero_add (s.tokens.size + 1) ▸ s.last_lt_rounds 0
  have hsteps := reader_inStep hs hlast hlast hlast hlast
  obtain ⟨-, j, -, hj, -, ⟨body, hrun, -⟩ | ⟨c, hc, hrun⟩⟩ := hsteps.run (Nat.zero_le _)
  · have hbody : statements s = .ok body := by
      rw [statements_eq, hrun]
      rfl
    exact .inl ⟨_, by rw [ofStream, hbody]⟩
  · refine .inr ⟨c, hc, j, Stream.lt_size_iff.mpr hj, ?_⟩
    rw [ofStream, statements_eq, hrun]
    rfl

end Program

open Grammar in
/-- Any list of tokens is read to its end: a program comes out of it, or a fault at one of its
tokens, and never for want of depth or rounds. The whole run and the run of every reader inside it
are sequences of steps that stay in the stream and take no end of input, the same for all sufficient
bounds. A reader of statements or expressions that gives a result has gone on. -/
theorem every_token_list_is_read (tokens : List Token) (source : Text.Source) :
    let s := Stream.ofTokens tokens.toArray source.endPosition
    ((∃ program, Program.ofTokens tokens source = .ok program) ∨
      ∃ c, c ≠ .tooDeep ∧ ∃ t ∈ s.tokens,
        Program.ofTokens tokens source = .error ((Fault.atToken c t).report source)) ∧
    (∀ n n' m m', s.last < n → s.last < n' → s.last < m → s.last < m' →
      InStep s (fun j _ => s.kindAt j = .endOfInput) 0 (Program.reader n m)
        (Program.reader n' m')) ∧
    ∀ i n n', i ≤ s.last → s.last ≤ i + n → s.last ≤ i + n' →
      (InStep s (fun j _ => i < j) i (readStatement (upTo n)) (readStatement (upTo n')) ∧
        Advances s (readStatement (upTo n)) i) ∧
      ∀ r, InStep s (fun j _ => i < j) i (readerAt (upTo n) r) (readerAt (upTo n') r) ∧
        Advances s (readerAt (upTo n) r) i := by
  intro s
  have hs : s.Closed := Stream.closed_ofTokens _ _
  refine ⟨?_, fun n n' m m' hn hn' hm hm' => Program.reader_inStep hs hn hn' hm hm', ?_⟩
  · obtain ⟨program, h⟩ | ⟨c, hc, j, hj, h⟩ := Program.ofStream_cases hs
    · exact .inl ⟨program, by rw [Program.ofTokens, h]⟩
    · refine .inr ⟨c, hc, s.get j, ?_, by rw [Program.ofTokens, h]⟩
      rw [Stream.get_eq hj]
      exact Array.getElem_mem hj
  · intro i n n' hi hn hn'
    have hnested := nested_upTo hs hn hn'
    have hstatement := readStatement_proceeds hs hnested hi
    have hexpression (r : Nat) := readerAt_proceeds hs hnested r hi
    exact ⟨⟨hstatement, hstatement.advances hi⟩, fun r =>
      ⟨hexpression r, (hexpression r).advances hi⟩⟩

open Grammar in
/-- The input ends early, goes on with an operator and has no end behind that. -/
theorem every_token_list_is_read_early_end :
    let tokens : List Token := [⟨.identifier "x", "x", default⟩, ⟨.endOfInput, "", default⟩,
      ⟨.symbol .bang, "!", default⟩]
    let s := Stream.ofTokens tokens.toArray (Text.Source.endPosition ⟨"", "x"⟩)
    s.last = 3 ∧
      InStep s (fun j _ => s.kindAt j = .endOfInput) 0 (Program.reader 4 4) (Program.reader 7 5) ∧
      InStep s (fun j _ => 2 < j) 2 (readStatement (upTo 1)) (readStatement (upTo 6)) ∧
      Advances s (readStatement (upTo 1)) 2 := by
  intro tokens s
  obtain ⟨-, hprogram, hreaders⟩ := every_token_list_is_read tokens ⟨"", "x"⟩
  exact ⟨by decide, hprogram 4 7 4 5 (by decide) (by decide) (by decide) (by decide),
    (hreaders 2 1 6 (by decide) (by decide) (by decide)).1⟩

end ScriptEngine
