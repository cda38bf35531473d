import ScriptEngine.Proofs.Syntax.MirroredStatements
import ScriptEngine.Proofs.Syntax.Overlap

/-!
# The grammar is local

Every reader of the grammar is followed by itself on a stream that has the tokens it takes in
common. Readers of expressions look behind their last token, and that is never a semicolon;
statements look behind a semicolon for nothing but `else`. Between braces and in the header of a
`for` a semicolon is followed by more tokens of the same node, so the parts of these may not end
with the stretch.
-/

namespace ScriptEngine

open Token Follows Relocation

namespace Overlap

variable {α β : Type} (W : Overlap)

/-- Tokens have been taken, what was read looks the same, and so does what follows. -/
abbrev Agree (view : α → β) (x y : Nat) (a a' : α) : Prop :=
  x < y ∧ W.Ready y ∧ view a' = view a

abbrev AgreeIfAny (view : α → β) (y : Nat) (a a' : α) : Prop :=
  W.Ready y ∧ view a' = view a

end Overlap

open Overlap

namespace Grammar

structure Local (g : Grammar) : Prop where
  assignment (W : Overlap) (x : Nat) :
    Follows W x g.assignment g.assignment (W.Agree (Expr.relocate detach) x)
  exponent (W : Overlap) (x : Nat) :
    Follows W x g.exponent g.exponent (W.Agree (Expr.relocate detach) x)
  unary (W : Overlap) (x : Nat) :
    Follows W x g.unary g.unary (W.Agree (Expr.relocate detach) x)
  member (W : Overlap) (x : Nat) :
    Follows W x g.member g.member (W.Agree (Expr.relocate detach) x)
  statement (W : Overlap) (x : Nat) :
    Follows W x g.statement g.statement fun y st st' =>
      x < y ∧ st'.relocate detach = st.relocate detach

variable {W : Overlap} {x y : Nat} {g : Grammar}

section Expressions

theorem functionName_follows (hready : W.Ready x) :
    Follows W x functionName functionName fun y name name' => W.Ready y ∧ name' = name := by
  refine kind_bind hready ?_
  cases W.source.kindAt x with
  | identifier name =>
    exact (expectName _).bind fun y n n' _ hn => pure ⟨hn.2.1, congrArg some hn.2.2⟩
  | _ => exact pure ⟨hready, rfl⟩

theorem leaf_follows {leaf : Origin → Expr} (hend : W.source.kindAt x ≠ .endOfInput)
    (hsemicolon : W.source.kindAt x ≠ .symbol .semicolon)
    (hleaf : ∀ o, (leaf o).relocate detach = leaf (detach.origin o)) :
    Follows W x (do let _ ← Parse.advance; return leaf (← Parse.originFrom x))
      (do let _ ← Parse.advance; return leaf (← Parse.originFrom (W.place + x)))
      (W.Agree (Expr.relocate detach) x) := by
  refine advance_bind hend (originFrom_bind (Nat.lt_succ_self x) fun o o' ho => pure ?_)
  exact ⟨Nat.lt_succ_self x, ready_succ hsemicolon, by rw [hleaf, hleaf, ho]⟩

variable (hg : g.Local)

include hg

theorem block_follows : Follows W x (block g) (block g) (W.Agree (Block.relocate detach) x) := by
  refine get_bind (expect_bind fun _ => rounds_bind ?_)
  refine bind_of_lt (manyUntil ready_inner (fun y _ => hg.statement W.inner y)
    (length_lt_rounds W.inner _)) fun y body body' hy hbody => ?_
  refine expect_bind fun hk => originFrom_bind (by omega) fun o o' ho => pure ?_
  refine ⟨by omega, by omega, ready_succ (hk ▸ nofun), ?_⟩
  simp only [Block.relocate, Stmt.relocateAll_eq_map, ho, hbody]

theorem functionRest_follows :
    Follows W x (functionRest g) (functionRest g) fun y rest rest' =>
      x < y ∧ W.Ready y ∧ rest'.1 = rest.1 ∧ rest'.2.relocate detach = rest.2.relocate detach := by
  refine expect_bind fun hk => ?_
  refine (separatedBefore (fun y _ => expectName _) (ready_succ (hk ▸ nofun))).bind
    fun y params params' hy hparams => ?_
  refine expect_bind fun _ => ?_
  refine (block_follows hg).bind fun z body body' hz hbody => pure ?_
  rw [List.map_id', List.map_id'] at hparams
  exact ⟨by omega, hbody.2.1, hparams.2, hbody.2.2⟩

theorem arguments_follows :
    Follows W x (arguments g) (arguments g) (W.Agree (Expr.relocateAll detach) x) := by
  refine expect_bind fun hk => ?_
  refine (separatedBefore (fun y _ => hg.assignment W y) (ready_succ (hk ▸ nofun))).bind
    fun y args args' hy hargs => ?_
  refine expect_bind fun hk => pure ?_
  refine ⟨by omega, ready_succ (hk ▸ nofun), ?_⟩
  simp only [Expr.relocateAll_eq_map, hargs.2]

theorem argumentsIfAny_follows (hready : W.Ready x) :
    Follows W x (argumentsIfAny g) (argumentsIfAny g)
      (W.AgreeIfAny (Expr.relocateAll detach)) := by
  refine check_bind (hready.readyFor _) ?_
  split
  · exact (arguments_follows hg).mono fun y args args' _ hargs => hargs.2
  · exact pure ⟨hready, rfl⟩

theorem field_follows : Follows W x (field g) (field g) (W.Agree (Field.relocate detach) x) := by
  refine peek_bind ?_
  cases hkey : fieldKey? (W.source.get x) with
  | none => exact fail rfl
  | some key =>
    refine advance_bind (kind_ne_end_of_fieldKey? hkey) (expect_bind fun _ => ?_)
    refine (hg.assignment W _).bind fun y e e' hy he => pure ?_
    refine ⟨by omega, he.2.1, ?_⟩
    simp only [Field.relocate, he.2.2]

theorem primary_follows :
    Follows W x (primary g) (primary g) (W.Agree (Expr.relocate detach) x) := by
  refine get_bind (peek_bind ?_)
  have hkind : W.source.kindAt x = (W.source.get x).kind := rfl
  cases hk : (W.source.get x).kind with
  | number form =>
    cases (W.source.get x).literalValue? with
    | none => exact unexpected
    | some value => exact leaf_follows (hkind ▸ hk ▸ nofun) (hkind ▸ hk ▸ nofun) fun _ => rfl
  | string value => exact leaf_follows (hkind ▸ hk ▸ nofun) (hkind ▸ hk ▸ nofun) fun _ => rfl
  | identifier name => exact leaf_follows (hkind ▸ hk ▸ nofun) (hkind ▸ hk ▸ nofun) fun _ => rfl
  | endOfInput => exact unexpected
  | keyword word =>
    have hnext : W.Ready (x + 1) := ready_succ (hkind ▸ hk ▸ nofun)
    cases word with
    | true_ | false_ | null | this =>
      exact leaf_follows (hkind ▸ hk ▸ nofun) (hkind ▸ hk ▸ nofun) fun _ => rfl
    | function =>
      refine advance_bind (hkind ▸ hk ▸ nofun) ?_
      refine (functionName_follows hnext).bind fun y name name' hy hname => ?_
      refine (functionRest_follows hg).bind fun z rest rest' hz hrest => ?_
      refine originFrom_bind (by omega) fun o o' ho => pure ⟨by omega, hrest.2.1, ?_⟩
      simp only [Expr.relocate, Function.relocate, ho, hname.2, hrest.2.2]
    | _ => exact unexpected
  | symbol mark =>
    have hnext (hmark : mark ≠ .semicolon) : W.Ready (x + 1) := by
      refine ready_succ ?_
      rw [hkind, hk]
      exact fun h => hmark (Kind.symbol.inj h)
    cases mark with
    | openParen =>
      refine advance_bind (hkind ▸ hk ▸ nofun) ?_
      refine (hg.assignment W _).bind fun y e e' hy he => expect_bind fun hk => ?_
      refine originFrom_bind (by omega) fun o o' ho => pure ?_
      refine ⟨by omega, ready_succ (hk ▸ nofun), ?_⟩
      rw [Expr.relocate_withOrigin, Expr.relocate_withOrigin, he.2.2, ho]
    | openBracket =>
      refine advance_bind (hkind ▸ hk ▸ nofun) (rounds_bind ?_)
      refine (separatedUntil (fun y _ => hg.assignment W y) (hnext nofun)
        (length_lt_rounds W _)).bind fun y items items' hy hitems => expect_bind fun hk => ?_
      refine originFrom_bind (by omega) fun o o' ho => pure ?_
      refine ⟨by omega, ready_succ (hk ▸ nofun), ?_⟩
      simp only [Expr.relocate, Expr.relocateAll_eq_map, ho, hitems.2]
    | openBrace =>
      refine advance_bind (hkind ▸ hk ▸ nofun) (rounds_bind ?_)
      refine (separatedUntil (fun y _ => field_follows hg) (hnext nofun)
        (length_lt_rounds W _)).bind fun y fields fields' hy hfields => expect_bind fun hk => ?_
      refine originFrom_bind (by omega) fun o o' ho => pure ?_
      refine ⟨by omega, ready_succ (hk ▸ nofun), ?_⟩
      simp only [Expr.relocate, Field.relocateAll_eq_map, ho, hfields.2]
    | _ => exact unexpected

theorem memberSuffix_follows (hready : W.Ready x) :
    Follows W x (memberSuffix g) (memberSuffix g)
      (Mirrors.Links x fun y p p' => W.Ready y ∧ p'.relocate detach = p.relocate detach) := by
  refine eat_bind nofun (hready.readyFor _) (fun _ => ?_) fun _ => ?_
  · refine expectPropertyName.bind fun y name name' hy hname => pure ?_
    exact .more (by omega) ⟨hname.2.1, by rw [hname.2.2]⟩
  · refine eat_bind nofun (hready.readyFor _) (fun _ => ?_) fun _ => pure .done
    refine (hg.assignment W _).bind fun y key key' hy hkey => expect_bind fun hk => pure ?_
    refine .more (by omega) ⟨ready_succ (hk ▸ nofun), ?_⟩
    simp only [Property.relocate, hkey.2.2]

theorem memberStep_follows {e e' : Expr} (he : W.Agree (Expr.relocate detach) x y e e') :
    Follows W y (memberStep g x e) (memberStep g (W.place + x) e')
      (Mirrors.Links y (W.Agree (Expr.relocate detach) x)) := by
  obtain ⟨hxy, hready, hview⟩ := he
  refine (memberSuffix_follows hg hready).bind fun z p p' hz hlinks => ?_
  cases hlinks with
  | done => exact pure .done
  | more hlt hp =>
    refine originFrom_bind (by omega) fun o o' ho => pure (.more hlt ⟨by omega, hp.1, ?_⟩)
    simp only [Expr.relocate, ho, hview, hp.2]

theorem memberHead_follows :
    Follows W x (memberHead g) (memberHead g) (W.Agree (Expr.relocate detach) x) := by
  refine get_bind (eat_bind_of_lt nofun (fun _ => ?_) (primary_follows hg))
  refine (hg.member W _).bind fun y callee callee' hy hcallee => ?_
  refine (argumentsIfAny_follows hg hcallee.2.1).bind fun z args args' hz hargs => ?_
  refine originFrom_bind (by omega) fun o o' ho => pure ⟨by omega, hargs.1, ?_⟩
  simp only [Expr.relocate, ho, hcallee.2.2, hargs.2]

theorem readMember_follows :
    Follows W x (readMember g) (readMember g) (W.Agree (Expr.relocate detach) x) := by
  refine get_bind ((memberHead_follows hg).bind fun y head head' hy hhead => rounds_bind ?_)
  exact chain (fun z e e' _ he => memberStep_follows hg he) (length_lt_rounds W y) hhead

theorem callStep_follows {e e' : Expr} (he : W.Agree (Expr.relocate detach) x y e e') :
    Follows W y (callStep g x e) (callStep g (W.place + x) e')
      (Mirrors.Links y (W.Agree (Expr.relocate detach) x)) := by
  refine check_bind (he.2.1.readyFor _) ?_
  split
  · refine (arguments_follows hg).bind fun z args args' hz hargs => ?_
    have hlt := he.1
    refine originFrom_bind (by omega) fun o o' ho => pure ?_
    refine .more hargs.1 ⟨by omega, hargs.2.1, ?_⟩
    simp only [Expr.relocate, ho, he.2.2, hargs.2.2]
  · exact memberStep_follows hg he

theorem call_follows :
    Follows W x (call g) (call g) (W.Agree (Expr.relocate detach) x) := by
  refine get_bind ((readMember_follows hg).bind fun y head head' hy hhead => rounds_bind ?_)
  exact chain (fun z e e' _ he => callStep_follows hg he) (length_lt_rounds W y) hhead

omit hg in
theorem target?_cases {e e' : Expr} (he : e'.relocate detach = e.relocate detach) :
    (e.target? = none ∧ e'.target? = none) ∨ ∃ t t', e.target? = some t ∧ e'.target? = some t' ∧
      t'.relocate detach = t.relocate detach := by
  refine ReadsAlike.cases_of_map_eq ?_
  rw [← Expr.target?_relocate, ← Expr.target?_relocate, he]

theorem updated_follows :
    Follows W x (updated g) (updated g) (W.Agree (Expr.relocate detach) x) := by
  refine get_bind ((call_follows hg).bind fun y e e' hy he => kind_bind he.2.1 ?_)
  cases hop : updateOp? (W.source.kindAt y) with
  | none => exact pure he
  | some op =>
    obtain ⟨hnone, hnone'⟩ | ⟨t, t', ht, ht', htarget⟩ := target?_cases he.2.2
    · rw [hnone, hnone']
      exact fail rfl
    · rw [ht, ht']
      have hend : W.source.kindAt y ≠ .endOfInput := fun hk => by simp [hk, updateOp?] at hop
      have hsemicolon : W.source.kindAt y ≠ .symbol .semicolon := fun hk => by
        simp [hk, updateOp?] at hop
      refine advance_bind hend (originFrom_bind (by omega) fun o o' ho => pure ?_)
      refine ⟨by omega, ready_succ hsemicolon, ?_⟩
      simp only [Expr.relocate, ho, htarget]

theorem readUnary_follows :
    Follows W x (readUnary g) (readUnary g) (W.Agree (Expr.relocate detach) x) := by
  refine get_bind (kind_bind_of_lt ?_)
  cases hop : updateOp? (W.source.kindAt x) with
  | some op =>
    have hend : W.source.kindAt x ≠ .endOfInput := fun hk => by simp [hk, updateOp?] at hop
    refine advance_bind hend ((hg.unary W _).bind fun y e e' hy he => ?_)
    obtain ⟨hnone, hnone'⟩ | ⟨t, t', ht, ht', htarget⟩ := target?_cases he.2.2
    · rw [hnone, hnone']
      exact fail rfl
    · rw [ht, ht']
      refine originFrom_bind (by omega) fun o o' ho => pure ⟨by omega, he.2.1, ?_⟩
      simp only [Expr.relocate, ho, htarget]
  | none =>
    cases hop' : unaryOp? (W.source.kindAt x) with
    | some op =>
      have hend : W.source.kindAt x ≠ .endOfInput := fun hk => by simp [hk, unaryOp?] at hop'
      refine advance_bind hend ((hg.unary W _).bind fun y e e' hy he => ?_)
      refine originFrom_bind (by omega) fun o o' ho => pure ⟨by omega, he.2.1, ?_⟩
      simp only [Expr.relocate, ho, he.2.2]
    | none => exact updated_follows hg

theorem readExponent_follows :
    Follows W x (readExponent g) (readExponent g) (W.Agree (Expr.relocate detach) x) := by
  refine get_bind ((readUnary_follows hg).bind fun y base base' hy hbase => ?_)
  refine eat_bind nofun (hbase.2.1.readyFor _) (fun _ => ?_) fun _ => pure hbase
  refine (hg.exponent W _).bind fun z power power' hz hpower => ?_
  refine originFrom_bind (by omega) fun o o' ho => pure ⟨by omega, hpower.2.1, ?_⟩
  simp only [Expr.relocate, ho, hbase.2.2, hpower.2.2]

end Expressions

section Levels

theorem levelStep_follows {level : Level} (hlevel : level ∈ levels) {next : Parse Expr}
    (hnext : ∀ z, y < z → Follows W z next next (W.Agree (Expr.relocate detach) z))
    {left left' : Expr} (hleft : W.Agree (Expr.relocate detach) x y left left') :
    Follows W y (levelStep level next x left) (levelStep level next (W.place + x) left')
      (Mirrors.Links y (W.Agree (Expr.relocate detach) x)) := by
  obtain ⟨hxy, hready, hview⟩ := hleft
  refine kind_bind hready ?_
  cases hjoin : level (W.source.kindAt y) with
  | none => exact pure .done
  | some join =>
    have hend : W.source.kindAt y ≠ .endOfInput := by
      obtain ⟨row, -, rfl⟩ := List.mem_map.mp hlevel
      intro hk
      rw [hk] at hjoin
      cases hjoin
    refine advance_bind hend ((hnext _ (by omega)).bind fun z right right' hz hright => ?_)
    refine originFrom_bind (by omega) fun o o' ho => pure (.more (by omega) ?_)
    refine ⟨by omega, hright.2.1, ?_⟩
    simp only [relocates_of_level hlevel hjoin detach, ho, hview, hright.2.2]

theorem ladder_follows {operand : Parse Expr}
    (hoperand : ∀ z, Follows W z operand operand (W.Agree (Expr.relocate detach) z))
    (rows : List Level) (hrows : ∀ level ∈ rows, level ∈ levels) :
    Follows W x (ladder operand rows) (ladder operand rows)
      (W.Agree (Expr.relocate detach) x) := by
  induction rows generalizing x with
  | nil => exact hoperand x
  | cons level rest ih =>
    obtain ⟨hlevel, hrest⟩ := List.forall_mem_cons.mp hrows
    refine get_bind ((ih hrest).bind fun y left left' hy hleft => rounds_bind ?_)
    exact chain (fun z e e' _ he => levelStep_follows hlevel (fun _ _ => ih hrest) he)
      (length_lt_rounds W y) hleft

end Levels

section Assignments

variable (hg : g.Local)

include hg

theorem conditional_follows :
    Follows W x (conditional g) (conditional g) (W.Agree (Expr.relocate detach) x) := by
  have hladder := ladder_follows (W := W) (x := x) (fun z => readExponent_follows hg)
    levels fun _ h => h
  refine get_bind (hladder.bind fun y test test' hy htest => ?_)
  refine eat_bind nofun (htest.2.1.readyFor _) (fun _ => ?_) fun _ => pure htest
  refine (hg.assignment W _).bind fun z yes yes' hz hyes => expect_bind fun _ => ?_
  refine (hg.assignment W _).bind fun w no no' hw hno => ?_
  refine originFrom_bind (by omega) fun o o' ho => pure ⟨by omega, hno.2.1, ?_⟩
  simp only [Expr.relocate, ho, htest.2.2, hyes.2.2, hno.2.2]

theorem readAssignment_follows :
    Follows W x (readAssignment g) (readAssignment g) (W.Agree (Expr.relocate detach) x) := by
  refine get_bind ((conditional_follows hg).bind fun y left left' hy hleft => ?_)
  refine kind_bind hleft.2.1 ?_
  cases hop : assignOp? (W.source.kindAt y) with
  | none => exact pure hleft
  | some op =>
    obtain ⟨hnone, hnone'⟩ | ⟨t, t', ht, ht', htarget⟩ := target?_cases hleft.2.2
    · rw [hnone, hnone']
      exact fail rfl
    · rw [ht, ht']
      have hend : W.source.kindAt y ≠ .endOfInput := fun hk => by simp [hk, assignOp?] at hop
      refine advance_bind hend ((hg.assignment W _).bind fun z value value' hz hvalue => ?_)
      cases op with
      | none | some op =>
        refine originFrom_bind (by omega) fun o o' ho => pure ⟨by omega, hvalue.2.1, ?_⟩
        simp only [Expr.relocate, ho, htarget, hvalue.2.2]

end Assignments

section Statements

/-- A semicolon may be the last token of what is read, so nothing is said of what follows it. -/
theorem semicolon_follows_bind {α : Type} {f f' : Unit → Parse α} {Q : Nat → α → α → Prop}
    (hready : W.Ready x) (h : ∀ y, x ≤ y → Follows W y (f ()) (f' ()) Q) :
    Follows W x (semicolon >>= f) (semicolon >>= f') Q := by
  have hsemicolon : Follows W x semicolon semicolon fun _ _ _ => True :=
    eat_bind nofun (hready.readyFor _) (fun _ => pure trivial) fun _ => pure trivial
  exact hsemicolon.bind fun y _ _ hy _ => h y hy

theorem jumpStatement_follows {build : Origin → Stmt} (hend : W.source.kindAt x ≠ .endOfInput)
    (hsemicolon : W.source.kindAt x ≠ .symbol .semicolon)
    (hbuild : ∀ o, (build o).relocate detach = build (detach.origin o)) :
    Follows W x (jumpStatement build) (jumpStatement build) fun y st st' =>
      x < y ∧ st'.relocate detach = st.relocate detach := by
  refine get_bind (advance_bind hend
    (semicolon_follows_bind (ready_succ hsemicolon) fun y hy => ?_))
  refine originFrom_bind (by omega) fun o o' ho => pure ⟨by omega, ?_⟩
  rw [hbuild, hbuild, ho]

theorem emptyStatement_follows (hend : W.source.kindAt x ≠ .endOfInput) :
    Follows W x emptyStatement emptyStatement fun y st st' =>
      x < y ∧ st'.relocate detach = st.relocate detach := by
  refine get_bind (advance_bind hend (originFrom_bind (by omega) fun o o' ho => pure ?_))
  exact ⟨by omega, by simp only [Stmt.relocate, ho]⟩

theorem handlerParam_follows (hready : W.Ready x) :
    Follows W x handlerParam handlerParam fun y param param' => W.Ready y ∧ param' = param := by
  refine eat_bind nofun (hready.readyFor _) (fun hk => ?_) fun _ => pure ⟨hready, rfl⟩
  have hnext : W.Ready (x + 1) := ready_succ (hk ▸ nofun)
  have hparam : Follows W (x + 1)
      (Parse.unlessAt .closeParen none (some <$> Parse.expectName .catchName))
      (Parse.unlessAt .closeParen none (some <$> Parse.expectName .catchName))
      fun _ param param' => param' = param :=
    unlessAt hnext rfl ((expectName _).map fun y name name' _ hname => congrArg some hname.2.2)
  refine hparam.bind fun y param param' hy hparam => expect_bind fun hk => pure ?_
  exact ⟨ready_succ (hk ▸ nofun), hparam⟩

variable (hg : g.Local)

include hg

theorem declarator_follows :
    Follows W x (declarator g) (declarator g) (W.Agree (Declarator.relocate detach) x) := by
  refine (expectName _).bind fun y name name' hy hname => ?_
  refine (behind (k := .symbol .assign) nofun (hname.2.1.readyFor _) hname.2.1 fun _ =>
    (hg.assignment W _).mono fun _ _ _ _ he => he.2).bind fun z init init' hz hinit => pure ?_
  refine ⟨by omega, hinit.1, ?_⟩
  simp only [Declarator.relocate, Expr.relocateIfAny_eq_map, hname.2.2, hinit.2]

theorem declaration_follows (hend : W.source.kindAt x ≠ .endOfInput) :
    Follows W x (declaration g) (declaration g) fun y d d' =>
      x < y ∧ W.Ready y ∧ d'.1 = d.1 ∧
        Declarator.relocateAll detach d'.2 = Declarator.relocateAll detach d.2 := by
  refine advance_bind hend (rounds_bind ?_)
  refine (separated (fun y _ => declarator_follows hg) (length_lt_rounds W _)).bind
    fun y ds ds' hy hds => pure ⟨by omega, hds.2.1, rfl, ?_⟩
  simp only [Declarator.relocateAll_eq_map, hds.2.2]

theorem declarationStatement_follows (hend : W.source.kindAt x ≠ .endOfInput) :
    Follows W x (declarationStatement g) (declarationStatement g) fun y st st' =>
      x < y ∧ st'.relocate detach = st.relocate detach := by
  refine get_bind ((declaration_follows hg hend).bind fun y d d' hy hd => ?_)
  refine semicolon_follows_bind hd.2.1 fun z hz => originFrom_bind (by omega) fun o o' ho => pure ?_
  exact ⟨by omega, by simp only [Stmt.relocate, ho, hd.2.2]⟩

theorem functionDeclaration_follows (hend : W.source.kindAt x ≠ .endOfInput) :
    Follows W x (functionDeclaration g) (functionDeclaration g) fun y st st' =>
      x < y ∧ st'.relocate detach = st.relocate detach := by
  refine get_bind (advance_bind hend ?_)
  refine (expectName _).bind fun y name name' hy hname => ?_
  refine (functionRest_follows hg).bind fun z rest rest' hz hrest => ?_
  refine originFrom_bind (by omega) fun o o' ho => pure ⟨by omega, ?_⟩
  simp only [Stmt.relocate, Function.relocate, ho, hname.2.2, hrest.2.2]

theorem blockStatement_follows :
    Follows W x (blockStatement g) (blockStatement g) fun y st st' =>
      x < y ∧ st'.relocate detach = st.relocate detach := by
  refine get_bind ((block_follows hg).bind fun y body body' hy hbody => ?_)
  refine originFrom_bind (by omega) fun o o' ho => pure ⟨by omega, ?_⟩
  simp only [Stmt.relocate, ho, hbody.2.2]

/-- Behind the statement of a condition only `else` is looked for, whatever that ends with. -/
theorem branchStatement_follows (hend : W.source.kindAt x ≠ .endOfInput) :
    Follows W x (branchStatement g) (branchStatement g) fun y st st' =>
      x < y ∧ st'.relocate detach = st.relocate detach := by
  refine get_bind (advance_bind hend (expect_bind fun _ => ?_))
  refine (hg.assignment W _).bind fun y e e' hy he => expect_bind fun _ => ?_
  refine (hg.statement W _).bind fun z yes yes' hz hyes => ?_
  refine (behind (k := .keyword .else_) nofun (readyFor_else z) trivial fun _ =>
    (hg.statement W _).mono fun _ _ _ _ hst => ⟨trivial, hst.2⟩).bind fun w no no' hw hno => ?_
  refine originFrom_bind (by omega) fun o o' ho => pure ⟨by omega, ?_⟩
  simp only [Stmt.relocate, Stmt.relocateIfAny_eq_map, ho, he.2.2, hyes.2, hno.2]

theorem whileStatement_follows (hend : W.source.kindAt x ≠ .endOfInput) :
    Follows W x (whileStatement g) (whileStatement g) fun y st st' =>
      x < y ∧ st'.relocate detach = st.relocate detach := by
  refine get_bind (advance_bind hend (expect_bind fun _ => ?_))
  refine (hg.assignment W _).bind fun y e e' hy he => expect_bind fun _ => ?_
  refine (hg.statement W _).bind fun z body body' hz hbody => ?_
  refine originFrom_bind (by omega) fun o o' ho => pure ⟨by omega, ?_⟩
  simp only [Stmt.relocate, ho, he.2.2, hbody.2]

theorem forInit_follows :
    Follows W.inner x (forInit g) (forInit g) fun _ init init' =>
      init'.map (Stmt.relocate detach) = init.map (Stmt.relocate detach) := by
  refine eat_bind nofun ((ready_inner x).readyFor _) (fun _ => pure rfl) fun _ => get_bind ?_
  refine kind_bind (ready_inner x) ?_
  split
  next hstarts =>
    have hend := kind_ne_end_of_startsDeclaration hstarts
    refine (declaration_follows hg hend).bind fun y d d' hy hd => ?_
    refine originFrom_bind (by omega) fun o o' ho => expect_bind fun _ => pure ?_
    simp only [Option.map_some, Stmt.relocate, ho, hd.2.2]
  next =>
    refine (hg.assignment W.inner x).bind fun y e e' hy he => ?_
    refine originFrom_bind (by omega) fun o o' ho => expect_bind fun _ => pure ?_
    simp only [Option.map_some, Stmt.relocate, ho, he.2.2]

theorem expressionUnless_follows (c : Symbol) :
    Follows W.inner x (expressionUnless g c) (expressionUnless g c) fun _ e e' =>
      e'.map (Expr.relocate detach) = e.map (Expr.relocate detach) :=
  unlessAt (ready_inner x) rfl
    ((hg.assignment W.inner x).map fun _ _ _ _ he => congrArg some he.2.2)

/-- The semicolons of the header do not end the statement, so its parts stay inside of the stretch.
-/
theorem forStatement_follows (hend : W.source.kindAt x ≠ .endOfInput) :
    Follows W x (forStatement g) (forStatement g) fun y st st' =>
      x < y ∧ st'.relocate detach = st.relocate detach := by
  refine get_bind (advance_bind hend (expect_bind fun _ => ?_))
  refine bind_of_lt (forInit_follows hg) fun y init init' hy hinit => ?_
  refine bind_of_lt (expressionUnless_follows hg _) fun z c c' hz hc => expect_bind fun _ => ?_
  refine bind_of_lt (expressionUnless_follows hg _) fun w u u' hw hu => expect_bind fun _ => ?_
  refine (hg.statement W _).bind fun v body body' hv hbody => ?_
  refine originFrom_bind (by omega) fun o o' ho => pure ⟨by omega, by omega, by omega, by omega, ?_⟩
  simp only [Stmt.relocate, Stmt.relocateIfAny_eq_map, Expr.relocateIfAny_eq_map, ho, hinit, hc, hu,
    hbody.2]

theorem caseTest_follows :
    Follows W x (caseTest g) (caseTest g) fun y test test' =>
      x < y ∧ test'.map (Expr.relocate detach) = test.map (Expr.relocate detach) := by
  refine eat_bind_of_lt nofun (fun _ => ?_) ?_
  · exact (hg.assignment W _).map fun y e e' hy he => ⟨by omega, congrArg some he.2.2⟩
  · exact eat_bind_of_lt nofun (fun _ => pure ⟨by omega, rfl⟩) (fail rfl)

theorem switchCase_follows :
    Follows W.inner x (switchCase g) (switchCase g) fun y arm arm' =>
      x < y ∧ arm'.relocate detach = arm.relocate detach := by
  refine (caseTest_follows hg).bind fun y test test' hy htest => expect_bind fun _ => ?_
  refine rounds_bind ((manyUntil ready_inner (fun z _ => hg.statement W.inner z)
    (length_lt_rounds W.inner _)).bind fun z body body' hz hbody => pure ⟨by omega, ?_⟩)
  simp only [SwitchCase.relocate, Expr.relocateIfAny_eq_map, Stmt.relocateAll_eq_map,
    htest.2, hbody]

theorem switchStatement_follows (hend : W.source.kindAt x ≠ .endOfInput) :
    Follows W x (switchStatement g) (switchStatement g) fun y st st' =>
      x < y ∧ st'.relocate detach = st.relocate detach := by
  refine get_bind (advance_bind hend (expect_bind fun _ => ?_))
  refine (hg.assignment W _).bind fun y e e' hy he => expect_bind fun _ => expect_bind fun _ => ?_
  refine rounds_bind (bind_of_lt (manyUntil ready_inner (fun z _ => switchCase_follows hg)
    (length_lt_rounds W.inner _)) fun z cases cases' hz hcases => expect_bind fun _ => ?_)
  refine originFrom_bind (by omega) fun o o' ho => pure ⟨by omega, by omega, ?_⟩
  simp only [Stmt.relocate, SwitchCase.relocateAll_eq_map, ho, he.2.2, hcases]

theorem raiseStatement_follows (hend : W.source.kindAt x ≠ .endOfInput) :
    Follows W x (raiseStatement g) (raiseStatement g) fun y st st' =>
      x < y ∧ st'.relocate detach = st.relocate detach := by
  refine get_bind (advance_bind hend ((hg.assignment W _).bind fun y e e' hy he => ?_))
  refine semicolon_follows_bind he.2.1 fun z hz => originFrom_bind (by omega) fun o o' ho => pure ?_
  exact ⟨by omega, by simp only [Stmt.relocate, ho, he.2.2]⟩

theorem handler_follows (hready : W.Ready x) :
    Follows W x (handler g) (handler g) fun y h h' =>
      W.Ready y ∧ h'.map (Handler.relocate detach) = h.map (Handler.relocate detach) := by
  refine behind nofun (hready.readyFor _) hready fun hk => ?_
  refine (handlerParam_follows (ready_succ (hk ▸ nofun))).bind fun y param param' hy hparam => ?_
  refine (block_follows hg).bind fun z body body' hz hbody => pure ⟨hbody.2.1, ?_⟩
  simp only [Handler.relocate, hparam.2, hbody.2.2]

theorem attemptStatement_follows (hend : W.source.kindAt x ≠ .endOfInput) :
    Follows W x (attemptStatement g) (attemptStatement g) fun y st st' =>
      x < y ∧ st'.relocate detach = st.relocate detach := by
  refine get_bind (advance_bind hend ((block_follows hg).bind fun y b b' hy hb => ?_))
  refine (handler_follows hg hb.2.1).bind fun z caught caught' hz hcaught => ?_
  refine (behind (k := .keyword .finally_) nofun (hcaught.1.readyFor _) trivial fun _ =>
    (block_follows hg).mono fun _ _ _ _ hb => ⟨trivial, hb.2.2⟩).bind
      fun w final final' hw hfinal => ?_
  have hsome : caught'.isNone = caught.isNone := by
    rw [← Option.isNone_map (f := Handler.relocate detach), hcaught.2, Option.isNone_map]
  have hsome' : final'.isNone = final.isNone := by
    rw [← Option.isNone_map (f := Block.relocate detach), hfinal.2, Option.isNone_map]
  rw [hsome, hsome']
  split
  · exact fail rfl
  · refine originFrom_bind (by omega) fun o o' ho => pure ⟨by omega, ?_⟩
    simp only [Stmt.relocate, Handler.relocateIfAny_eq_map, Block.relocateIfAny_eq_map, ho, hb.2.2,
      hcaught.2, hfinal.2]

theorem returnStatement_follows (hend : W.source.kindAt x ≠ .endOfInput)
    (hsemicolon : W.source.kindAt x ≠ .symbol .semicolon) :
    Follows W x (returnStatement g) (returnStatement g) fun y st st' =>
      x < y ∧ st'.relocate detach = st.relocate detach := by
  have hnext : W.Ready (x + 1) := ready_succ hsemicolon
  have hvalue : Follows W (x + 1) (returnValue g) (returnValue g) fun y v v' =>
      W.Ready y ∧ v'.map (Expr.relocate detach) = v.map (Expr.relocate detach) := by
    refine kind_bind hnext ?_
    split
    · exact pure ⟨hnext, rfl⟩
    · exact (hg.assignment W _).map fun y e e' _ he => ⟨he.2.1, congrArg some he.2.2⟩
  refine get_bind (advance_bind hend (hvalue.bind fun y v v' hy hv => ?_))
  refine semicolon_follows_bind hv.1 fun z hz => originFrom_bind (by omega) fun o o' ho => pure ?_
  exact ⟨by omega, by simp only [Stmt.relocate, Expr.relocateIfAny_eq_map, ho, hv.2]⟩

theorem expressionStatement_follows :
    Follows W x (expressionStatement g) (expressionStatement g) fun y st st' =>
      x < y ∧ st'.relocate detach = st.relocate detach := by
  refine get_bind ((readAssignment_follows hg).bind fun y e e' hy he => ?_)
  refine semicolon_follows_bind he.2.1 fun z hz => originFrom_bind (by omega) fun o o' ho => pure ?_
  exact ⟨by omega, by simp only [Stmt.relocate, ho, he.2.2]⟩

theorem readStatement_follows :
    Follows W x (readStatement g) (readStatement g) fun y st st' =>
      x < y ∧ st'.relocate detach = st.relocate detach := by
  refine kind_bind_of_lt ?_
  cases hk : W.source.kindAt x with
  | keyword word =>
    have hend : W.source.kindAt x ≠ .endOfInput := hk ▸ nofun
    have hsemicolon : W.source.kindAt x ≠ .symbol .semicolon := hk ▸ nofun
    cases word with
    | var | let_ | const => exact declarationStatement_follows hg hend
    | function => exact functionDeclaration_follows hg hend
    | if_ => exact branchStatement_follows hg hend
    | while_ => exact whileStatement_follows hg hend
    | for_ => exact forStatement_follows hg hend
    | switch => exact switchStatement_follows hg hend
    | break_ | continue_ => exact jumpStatement_follows hend hsemicolon fun _ => rfl
    | throw_ => exact raiseStatement_follows hg hend
    | try_ => exact attemptStatement_follows hg hend
    | return_ => exact returnStatement_follows hg hend hsemicolon
    | _ => exact expressionStatement_follows hg
  | symbol mark =>
    have hend : W.source.kindAt x ≠ .endOfInput := hk ▸ nofun
    cases mark with
    | openBrace => exact blockStatement_follows hg
    | semicolon => exact emptyStatement_follows hend
    | _ => exact expressionStatement_follows hg
  | _ => exact expressionStatement_follows hg

end Statements

theorem Local.deeper (hg : g.Local) : (deeper g).Local where
  assignment _ _ := readAssignment_follows hg
  exponent _ _ := readExponent_follows hg
  unary _ _ := readUnary_follows hg
  member _ _ := readMember_follows hg
  statement _ _ := readStatement_follows hg

theorem local_upTo (n : Nat) : (upTo n).Local := by
  induction n with
  | zero =>
    exact ⟨fun _ _ => .exhausted, fun _ _ => .exhausted, fun _ _ => .exhausted,
      fun _ _ => .exhausted, fun _ _ => .exhausted⟩
  | succ n ih => exact ih.deeper

end Grammar

end ScriptEngine
