import ScriptEngine.Proofs.Layout.Reading

/-!
# The grammar in other places

Every reader of the grammar reads two streams of the same words alike. The nesting readers are taken
from a grammar that does, so the whole is one induction on the depth of nesting. Readers of
expressions and statements fail at the end of input, so a node is closed with a beginning before it.
-/

namespace ScriptEngine

open Token ReadsAlike

namespace Grammar

structure Alike (R : Respacing) (g : Grammar) : Prop where
  ends : StopsAlike R g.assignment g.assignment
  assignment : ReadsAlike R (Expr.relocate R.view) g.assignment g.assignment
  exponent : ReadsAlike R (Expr.relocate R.view) g.exponent g.exponent
  unary : ReadsAlike R (Expr.relocate R.view) g.unary g.unary
  member : ReadsAlike R (Expr.relocate R.view) g.member g.member
  statement : ReadsAlike R (Stmt.relocate R.view) g.statement g.statement

variable {R : Respacing} {g : Grammar}

section Ends

theorem block_stops : StopsAlike R (block g) (block g) :=
  .get_bind fun _ => .expect_bind

theorem primary_stops : StopsAlike R (primary g) (primary g) := by
  refine .get_bind fun _ => .peek_bind fun t t' ht ht' => ?_
  rw [ht, ht']
  exact .unexpected

theorem memberHead_stops : StopsAlike R (memberHead g) (memberHead g) :=
  .get_bind fun _ => .eat_bind nofun primary_stops

theorem readMember_stops : StopsAlike R (readMember g) (readMember g) :=
  .get_bind fun _ => memberHead_stops.bind

theorem call_stops : StopsAlike R (call g) (call g) :=
  .get_bind fun _ => readMember_stops.bind

theorem updated_stops : StopsAlike R (updated g) (updated g) :=
  .get_bind fun _ => call_stops.bind

theorem readUnary_stops : StopsAlike R (readUnary g) (readUnary g) :=
  .get_bind fun _ => .kind_bind updated_stops

theorem readExponent_stops : StopsAlike R (readExponent g) (readExponent g) :=
  .get_bind fun _ => readUnary_stops.bind

theorem ladder_stops {operand : Parse Expr} (h : StopsAlike R operand operand) (rows : List Level) :
    StopsAlike R (ladder operand rows) (ladder operand rows) := by
  induction rows with
  | nil => exact h
  | cons level rest ih => exact .get_bind fun _ => ih.bind

theorem conditional_stops : StopsAlike R (conditional g) (conditional g) :=
  .get_bind fun _ => (ladder_stops readExponent_stops levels).bind

theorem readAssignment_stops : StopsAlike R (readAssignment g) (readAssignment g) :=
  .get_bind fun _ => conditional_stops.bind

theorem readStatement_stops : StopsAlike R (readStatement g) (readStatement g) :=
  .kind_bind (.get_bind fun _ => readAssignment_stops.bind)

end Ends

section Expressions

theorem functionName_alike : ReadsAlike R (Option.map R.view.ident) functionName functionName := by
  refine kind_bind fun k => ?_
  cases k with
  | identifier name => exact (expectName _).bind fun n n' hn => pure (congrArg some hn)
  | _ => exact pure rfl

theorem fieldKey?_word {t t' : Token} (h : t'.word = t.word) : fieldKey? t' = fieldKey? t := by
  obtain ⟨kind, text, span⟩ := t
  obtain ⟨kind', text', span'⟩ := t'
  cases h
  rfl

theorem leaf_alike {leaf : Origin → Expr} {start : Nat} (hstart : start < R.source.last)
    (hleaf : ∀ o, (leaf o).relocate R.view = leaf (R.view.origin o)) :
    ReadsAlike R (Expr.relocate R.view)
      (do let _ ← Parse.advance; return leaf (← Parse.originFrom start))
      (do let _ ← Parse.advance; return leaf (← Parse.originFrom start)) := by
  refine advance_bind fun _ _ _ => originFrom_bind hstart fun o o' ho => pure ?_
  rw [hleaf, hleaf, ho]

variable (hg : g.Alike R)

include hg

theorem block_alike : ReadsAlike R (Block.relocate R.view) (block g) (block g) := by
  refine of_begins block_stops (.get_bind fun start hstart => ?_)
  refine expect_bind (rounds_bind fun n => ?_)
  refine (manyUntil _ hg.statement n).bind fun body body' hbody => ?_
  refine expect_bind (originFrom_bind hstart fun o o' ho => pure ?_)
  simp only [Block.relocate, Stmt.relocateAll_eq_map, ho, hbody]

theorem functionRest_alike :
    ReadsAlike R (Prod.map (List.map R.view.ident) (Block.relocate R.view)) (functionRest g)
      (functionRest g) := by
  refine expect_bind ((separatedBefore _ (expectName _)).bind fun params params' hparams => ?_)
  refine expect_bind ((block_alike hg).bind fun body body' hbody => pure ?_)
  simp only [Prod.map, hparams, hbody]

theorem arguments_alike :
    ReadsAlike R (Expr.relocateAll R.view) (arguments g) (arguments g) := by
  refine expect_bind ((separatedBefore _ hg.assignment).bind fun args args' hargs => ?_)
  refine expect_bind (pure ?_)
  simp only [Expr.relocateAll_eq_map, hargs]

theorem argumentsIfAny_alike :
    ReadsAlike R (Expr.relocateAll R.view) (argumentsIfAny g) (argumentsIfAny g) := by
  refine check_bind fun found => ?_
  split
  · exact arguments_alike hg
  · exact pure rfl

theorem field_alike : ReadsAlike R (Field.relocate R.view) (field g) (field g) := by
  refine peek_bind fun t t' ht => ?_
  rw [fieldKey?_word ht]
  cases fieldKey? t with
  | none => exact fail _
  | some key =>
    refine advance_bind fun _ _ _ => expect_bind (hg.assignment.bind fun e e' he => pure ?_)
    simp only [Field.relocate, he]

theorem primary_alike : ReadsAlike R (Expr.relocate R.view) (primary g) (primary g) := by
  refine of_begins primary_stops (.get_bind fun start hstart => ?_)
  refine peek_bind fun t t' ht => ?_
  obtain ⟨hkind, htext⟩ := Prod.mk.inj ht
  have hvalue : t'.literalValue? = t.literalValue? := by
    rw [literalValue?, literalValue?, hkind, htext]
  rw [hkind, hvalue]
  cases t.kind with
  | number form =>
    cases t.literalValue? with
    | none => exact unexpected
    | some value => exact leaf_alike hstart fun _ => rfl
  | string value => exact leaf_alike hstart fun _ => rfl
  | identifier name => exact leaf_alike hstart fun _ => rfl
  | endOfInput => exact unexpected
  | keyword word =>
    cases word with
    | true_ | false_ | null | this => exact leaf_alike hstart fun _ => rfl
    | function =>
      refine advance_bind fun _ _ _ => functionName_alike.bind fun name name' hname => ?_
      refine (functionRest_alike hg).bind fun rest rest' hrest => ?_
      obtain ⟨hparams, hbody⟩ := Prod.mk.inj hrest
      refine originFrom_bind hstart fun o o' ho => pure ?_
      simp only [Expr.relocate, Function.relocate, ho, hname, hparams, hbody]
    | _ => exact unexpected
  | symbol mark =>
    cases mark with
    | openParen =>
      refine advance_bind fun _ _ _ => hg.assignment.bind fun e e' he => ?_
      refine expect_bind (originFrom_bind hstart fun o o' ho => pure ?_)
      rw [Expr.relocate_withOrigin, Expr.relocate_withOrigin, he, ho]
    | openBracket =>
      refine advance_bind fun _ _ _ => rounds_bind fun n => ?_
      refine (separatedUntil _ hg.assignment n).bind fun items items' hitems => ?_
      refine expect_bind (originFrom_bind hstart fun o o' ho => pure ?_)
      simp only [Expr.relocate, Expr.relocateAll_eq_map, ho, hitems]
    | openBrace =>
      refine advance_bind fun _ _ _ => rounds_bind fun n => ?_
      refine (separatedUntil _ (field_alike hg) n).bind fun fields fields' hfields => ?_
      refine expect_bind (originFrom_bind hstart fun o o' ho => pure ?_)
      simp only [Expr.relocate, Field.relocateAll_eq_map, ho, hfields]
    | _ => exact unexpected

theorem memberSuffix_alike :
    ReadsAlike R (Option.map (Property.relocate R.view)) (memberSuffix g) (memberSuffix g) := by
  refine eat_bind fun dot => ?_
  split
  · refine expectPropertyName.bind fun name name' hname => pure ?_
    simp only [Option.map_some, Property.relocate, hname]
  · refine eat_bind fun bracket => ?_
    split
    · refine hg.assignment.bind fun key key' hkey => expect_bind (pure ?_)
      simp only [Option.map_some, Property.relocate, hkey]
    · exact pure rfl

theorem memberStep_alike {start : Nat} (hstart : start < R.source.last) {e e' : Expr}
    (he : e'.relocate R.view = e.relocate R.view) :
    ReadsAlike R (Option.map (Expr.relocate R.view)) (memberStep g start e)
      (memberStep g start e') := by
  refine (memberSuffix_alike hg).bind fun suffix suffix' hsuffix => ?_
  obtain ⟨rfl, rfl⟩ | ⟨p, p', rfl, rfl, hp⟩ := cases_of_map_eq hsuffix
  · exact pure rfl
  · refine originFrom_bind hstart fun o o' ho => pure ?_
    simp only [Option.map_some, Expr.relocate, ho, he, hp]

theorem memberHead_alike : ReadsAlike R (Expr.relocate R.view) (memberHead g) (memberHead g) := by
  refine of_begins memberHead_stops (.get_bind fun start hstart => ?_)
  refine eat_bind fun new => ?_
  split
  · refine hg.member.bind fun callee callee' hcallee => ?_
    refine (argumentsIfAny_alike hg).bind fun args args' hargs => ?_
    refine originFrom_bind hstart fun o o' ho => pure ?_
    simp only [Expr.relocate, ho, hcallee, hargs]
  · exact primary_alike hg

theorem readMember_alike : ReadsAlike R (Expr.relocate R.view) (readMember g) (readMember g) := by
  refine of_begins readMember_stops (.get_bind fun start hstart => ?_)
  refine (memberHead_alike hg).bind fun head head' hhead => ?_
  exact rounds_bind fun n => chain (fun e e' he => memberStep_alike hg hstart he) n hhead

theorem callStep_alike {start : Nat} (hstart : start < R.source.last) {e e' : Expr}
    (he : e'.relocate R.view = e.relocate R.view) :
    ReadsAlike R (Option.map (Expr.relocate R.view)) (callStep g start e)
      (callStep g start e') := by
  refine check_bind fun found => ?_
  split
  · refine (arguments_alike hg).bind fun args args' hargs => ?_
    refine originFrom_bind hstart fun o o' ho => pure ?_
    simp only [Option.map_some, Expr.relocate, ho, he, hargs]
  · exact memberStep_alike hg hstart he

theorem call_alike : ReadsAlike R (Expr.relocate R.view) (call g) (call g) := by
  refine of_begins call_stops (.get_bind fun start hstart => ?_)
  refine (readMember_alike hg).bind fun head head' hhead => ?_
  exact rounds_bind fun n => chain (fun e e' he => callStep_alike hg hstart he) n hhead

omit hg in
theorem target?_alike {e e' : Expr} (he : e'.relocate R.view = e.relocate R.view) :
    e'.target?.map (Target.relocate R.view) = e.target?.map (Target.relocate R.view) := by
  rw [← Expr.target?_relocate, ← Expr.target?_relocate, he]

theorem updated_alike : ReadsAlike R (Expr.relocate R.view) (updated g) (updated g) := by
  refine of_begins updated_stops (.get_bind fun start hstart => ?_)
  refine (call_alike hg).bind fun e e' he => kind_bind fun k => ?_
  cases updateOp? k with
  | none => exact pure he
  | some op =>
    obtain ⟨hnone, hnone'⟩ | ⟨t, t', ht, ht', htarget⟩ := cases_of_map_eq (target?_alike he)
    · rw [hnone, hnone']
      exact fail _
    · rw [ht, ht']
      refine advance_bind fun _ _ _ => originFrom_bind hstart fun o o' ho => pure ?_
      simp only [Expr.relocate, ho, htarget]

theorem readUnary_alike : ReadsAlike R (Expr.relocate R.view) (readUnary g) (readUnary g) := by
  refine of_begins readUnary_stops (.get_bind fun start hstart => ?_)
  refine kind_bind fun k => ?_
  cases updateOp? k with
  | some op =>
    refine advance_bind fun _ _ _ => hg.unary.bind fun e e' he => ?_
    obtain ⟨hnone, hnone'⟩ | ⟨t, t', ht, ht', htarget⟩ := cases_of_map_eq (target?_alike he)
    · rw [hnone, hnone']
      exact fail _
    · rw [ht, ht']
      refine originFrom_bind hstart fun o o' ho => pure ?_
      simp only [Expr.relocate, ho, htarget]
  | none =>
    cases unaryOp? k with
    | some op =>
      refine advance_bind fun _ _ _ => hg.unary.bind fun e e' he => ?_
      refine originFrom_bind hstart fun o o' ho => pure ?_
      simp only [Expr.relocate, ho, he]
    | none => exact updated_alike hg

theorem readExponent_alike :
    ReadsAlike R (Expr.relocate R.view) (readExponent g) (readExponent g) := by
  refine of_begins readExponent_stops (.get_bind fun start hstart => ?_)
  refine (readUnary_alike hg).bind fun base base' hbase => eat_bind fun found => ?_
  split
  · refine hg.exponent.bind fun power power' hpower => originFrom_bind hstart fun o o' ho => pure ?_
    simp only [Expr.relocate, ho, hbase, hpower]
  · exact pure hbase

end Expressions

section Levels

def Relocates (join : Origin → Expr → Expr → Expr) : Prop :=
  ∀ (ρ : Relocation) (o : Origin) (l r : Expr),
    (join o l r).relocate ρ = join (ρ.origin o) (l.relocate ρ) (r.relocate ρ)

theorem relocates_of_mem_operators : ∀ row ∈ operators, ∀ p ∈ row, Relocates p.2 := by
  have hcoalesce : Relocates .coalesce := fun _ _ _ _ => rfl
  have hlogical (op : LogicalOp) : Relocates (.logical · op) := fun _ _ _ _ => rfl
  have hbinary (op : BinaryOp) : Relocates (.binary · op) := fun _ _ _ _ => rfl
  simp only [operators, List.forall_mem_cons, hcoalesce, hlogical, hbinary, List.not_mem_nil,
    false_implies, implies_true, and_self]

theorem relocates_of_level {level : Level} (hlevel : level ∈ levels) {k : Kind}
    {join : Origin → Expr → Expr → Expr} (h : level k = some join) : Relocates join := by
  obtain ⟨row, hrow, rfl⟩ := List.mem_map.mp hlevel
  cases k with
  | symbol c =>
    obtain ⟨before, after, rfl, -⟩ := List.lookup_eq_some_iff.mp h
    exact relocates_of_mem_operators _ hrow (c, join) (by simp)
  | _ => cases h

theorem levelStep_alike {level : Level} (hlevel : level ∈ levels) {next : Parse Expr}
    (hnext : ReadsAlike R (Expr.relocate R.view) next next) {start : Nat}
    (hstart : start < R.source.last) {left left' : Expr}
    (hleft : left'.relocate R.view = left.relocate R.view) :
    ReadsAlike R (Option.map (Expr.relocate R.view)) (levelStep level next start left)
      (levelStep level next start left') := by
  refine kind_bind fun k => ?_
  cases hjoin : level k with
  | none => exact pure rfl
  | some join =>
    have hrelocates := relocates_of_level hlevel hjoin
    refine advance_bind fun _ _ _ => hnext.bind fun right right' hright => ?_
    refine originFrom_bind hstart fun o o' ho => pure ?_
    simp only [Option.map_some, hrelocates R.view, ho, hleft, hright]

theorem ladder_alike {operand : Parse Expr} (hstops : StopsAlike R operand operand)
    (hoperand : ReadsAlike R (Expr.relocate R.view) operand operand) (rows : List Level)
    (hrows : ∀ level ∈ rows, level ∈ levels) :
    ReadsAlike R (Expr.relocate R.view) (ladder operand rows) (ladder operand rows) := by
  induction rows with
  | nil => exact hoperand
  | cons level rest ih =>
    obtain ⟨hlevel, hrest⟩ := List.forall_mem_cons.mp hrows
    refine of_begins (ladder_stops hstops _) (.get_bind fun start hstart => ?_)
    refine (ih hrest).bind fun left left' hleft => rounds_bind fun n => ?_
    exact chain (fun e e' he => levelStep_alike hlevel (ih hrest) hstart he) n hleft

end Levels

section Assignments

variable (hg : g.Alike R)

include hg

theorem conditional_alike :
    ReadsAlike R (Expr.relocate R.view) (conditional g) (conditional g) := by
  refine of_begins conditional_stops (.get_bind fun start hstart => ?_)
  refine ?_
  have hladder := ladder_alike readExponent_stops (readExponent_alike hg) levels fun _ h => h
  refine hladder.bind fun test test' htest => ?_
  refine eat_bind fun found => ?_
  split
  · refine hg.assignment.bind fun yes yes' hyes => expect_bind ?_
    refine hg.assignment.bind fun no no' hno => originFrom_bind hstart fun o o' ho => pure ?_
    simp only [Expr.relocate, ho, htest, hyes, hno]
  · exact pure htest

theorem readAssignment_alike :
    ReadsAlike R (Expr.relocate R.view) (readAssignment g) (readAssignment g) := by
  refine of_begins readAssignment_stops (.get_bind fun start hstart => ?_)
  refine (conditional_alike hg).bind fun left left' hleft => ?_
  refine kind_bind fun k => ?_
  cases assignOp? k with
  | none => exact pure hleft
  | some op =>
    obtain ⟨hnone, hnone'⟩ | ⟨t, t', ht, ht', htarget⟩ := cases_of_map_eq (target?_alike hleft)
    · rw [hnone, hnone']
      exact fail _
    · rw [ht, ht']
      refine advance_bind fun _ _ _ => hg.assignment.bind fun value value' hvalue => ?_
      cases op with
      | none | some op =>
        refine originFrom_bind hstart fun o o' ho => pure ?_
        simp only [Expr.relocate, ho, htarget, hvalue]

end Assignments

section Statements

theorem semicolon_bind {α β : Type} {view : α → β} {f f' : Unit → Parse α}
    (h : ReadsAlike R view (f ()) (f' ())) :
    ReadsAlike R view (semicolon >>= f) (semicolon >>= f') := by
  have hsemicolon : ReadsAlike R id semicolon semicolon := eat_bind fun _ => pure rfl
  exact hsemicolon.bind fun _ _ _ => h

theorem jumpStatement_alike {build : Origin → Stmt}
    (hbuild : ∀ o, (build o).relocate R.view = build (R.view.origin o)) :
    BeginsAlike R (Stmt.relocate R.view) (jumpStatement build) (jumpStatement build) := by
  refine .get_bind fun start hstart => advance_bind fun _ _ _ => semicolon_bind ?_
  refine originFrom_bind hstart fun o o' ho => pure ?_
  rw [hbuild, hbuild, ho]

theorem emptyStatement_alike :
    BeginsAlike R (Stmt.relocate R.view) emptyStatement emptyStatement := by
  refine .get_bind fun start hstart => advance_bind fun _ _ _ => ?_
  refine originFrom_bind hstart fun o o' ho => pure ?_
  simp only [Stmt.relocate, ho]

theorem handlerParam_alike : ReadsAlike R (Option.map R.view.ident) handlerParam handlerParam := by
  refine eat_bind fun found => ?_
  split
  · have hparam : ReadsAlike R (Option.map R.view.ident)
        (Parse.unlessAt .closeParen none (some <$> Parse.expectName .catchName))
        (Parse.unlessAt .closeParen none (some <$> Parse.expectName .catchName)) :=
      unlessAt _ rfl ((expectName _).map fun _ _ hname => congrArg some hname)
    exact hparam.bind fun param param' h => expect_bind (pure h)
  · exact pure rfl

variable (hg : g.Alike R)

include hg

theorem declarator_alike :
    ReadsAlike R (Declarator.relocate R.view) (declarator g) (declarator g) := by
  refine (expectName _).bind fun name name' hname => ?_
  refine (behind _ hg.assignment).bind fun init init' hinit => pure ?_
  simp only [Declarator.relocate, Expr.relocateIfAny_eq_map, hname, hinit]

theorem declaration_alike :
    ReadsAlike R (Prod.map id (Declarator.relocateAll R.view)) (declaration g) (declaration g) := by
  refine advance_bind fun t t' ht => rounds_bind fun n => ?_
  refine (separated (declarator_alike hg) n).bind fun ds ds' hds => pure ?_
  have hkind : t'.kind = t.kind := congrArg Prod.fst ht
  simp only [Prod.map, Declarator.relocateAll_eq_map, hkind, hds]

theorem declarationStatement_alike :
    BeginsAlike R (Stmt.relocate R.view) (declarationStatement g) (declarationStatement g) := by
  refine .get_bind fun start hstart => (declaration_alike hg).bind fun d d' hd => ?_
  obtain ⟨hkind, hds⟩ := Prod.mk.inj hd
  refine semicolon_bind (originFrom_bind hstart fun o o' ho => pure ?_)
  simp only [id] at hkind
  simp only [Stmt.relocate, ho, hkind, hds]

theorem functionDeclaration_alike :
    BeginsAlike R (Stmt.relocate R.view) (functionDeclaration g) (functionDeclaration g) := by
  refine .get_bind fun start hstart => advance_bind fun _ _ _ => ?_
  refine (expectName _).bind fun name name' hname => (functionRest_alike hg).bind fun r r' hr => ?_
  obtain ⟨hparams, hbody⟩ := Prod.mk.inj hr
  refine originFrom_bind hstart fun o o' ho => pure ?_
  simp only [Stmt.relocate, Function.relocate, Option.map_some, ho, hname, hparams, hbody]

theorem blockStatement_alike :
    BeginsAlike R (Stmt.relocate R.view) (blockStatement g) (blockStatement g) := by
  refine .get_bind fun start hstart => (block_alike hg).bind fun body body' hbody => ?_
  refine originFrom_bind hstart fun o o' ho => pure ?_
  simp only [Stmt.relocate, ho, hbody]

theorem branchStatement_alike :
    BeginsAlike R (Stmt.relocate R.view) (branchStatement g) (branchStatement g) := by
  refine .get_bind fun start hstart => advance_bind fun _ _ _ => expect_bind ?_
  refine hg.assignment.bind fun condition condition' hcondition => expect_bind ?_
  refine hg.statement.bind fun yes yes' hyes => (behind _ hg.statement).bind fun no no' hno => ?_
  refine originFrom_bind hstart fun o o' ho => pure ?_
  simp only [Stmt.relocate, Stmt.relocateIfAny_eq_map, ho, hcondition, hyes, hno]

theorem whileStatement_alike :
    BeginsAlike R (Stmt.relocate R.view) (whileStatement g) (whileStatement g) := by
  refine .get_bind fun start hstart => advance_bind fun _ _ _ => expect_bind ?_
  refine hg.assignment.bind fun condition condition' hcondition => expect_bind ?_
  refine hg.statement.bind fun body body' hbody => originFrom_bind hstart fun o o' ho => pure ?_
  simp only [Stmt.relocate, ho, hcondition, hbody]

theorem forInit_alike :
    ReadsAlike R (Option.map (Stmt.relocate R.view)) (forInit g) (forInit g) := by
  refine eat_bind fun missing => ?_
  split
  · exact pure rfl
  · refine of_begins (.get_bind fun _ => .kind_bind hg.ends.bind) (.get_bind fun start hstart => ?_)
    refine kind_bind fun k => ?_
    split
    · refine (declaration_alike hg).bind fun d d' hd => originFrom_bind hstart fun o o' ho => ?_
      obtain ⟨hkind, hds⟩ := Prod.mk.inj hd
      simp only [id] at hkind
      refine expect_bind (pure ?_)
      simp only [Option.map_some, Stmt.relocate, ho, hkind, hds]
    · refine hg.assignment.bind fun e e' he => originFrom_bind hstart fun o o' ho => ?_
      refine expect_bind (pure ?_)
      simp only [Option.map_some, Stmt.relocate, ho, he]

theorem expressionUnless_alike (c : Symbol) :
    ReadsAlike R (Option.map (Expr.relocate R.view)) (expressionUnless g c)
      (expressionUnless g c) :=
  unlessAt _ rfl (hg.assignment.map fun _ _ he => congrArg some he)

theorem forStatement_alike :
    BeginsAlike R (Stmt.relocate R.view) (forStatement g) (forStatement g) := by
  refine .get_bind fun start hstart => advance_bind fun _ _ _ => expect_bind ?_
  refine (forInit_alike hg).bind fun init init' hinit => ?_
  refine (expressionUnless_alike hg _).bind fun condition condition' hcondition => expect_bind ?_
  refine (expressionUnless_alike hg _).bind fun update update' hupdate => expect_bind ?_
  refine hg.statement.bind fun body body' hbody => originFrom_bind hstart fun o o' ho => pure ?_
  simp only [Stmt.relocate, Stmt.relocateIfAny_eq_map, Expr.relocateIfAny_eq_map, ho, hinit,
    hcondition, hupdate, hbody]

theorem caseTest_alike :
    ReadsAlike R (Option.map (Expr.relocate R.view)) (caseTest g) (caseTest g) := by
  refine eat_bind fun case => ?_
  split
  · exact hg.assignment.map fun _ _ he => congrArg some he
  · refine eat_bind fun otherwise => ?_
    split
    · exact pure rfl
    · exact fail _

theorem switchCase_alike :
    ReadsAlike R (SwitchCase.relocate R.view) (switchCase g) (switchCase g) := by
  refine (caseTest_alike hg).bind fun test test' htest => expect_bind (rounds_bind fun n => ?_)
  refine (manyUntil _ hg.statement n).bind fun body body' hbody => pure ?_
  simp only [SwitchCase.relocate, Expr.relocateIfAny_eq_map, Stmt.relocateAll_eq_map, htest, hbody]

theorem switchStatement_alike :
    BeginsAlike R (Stmt.relocate R.view) (switchStatement g) (switchStatement g) := by
  refine .get_bind fun start hstart => advance_bind fun _ _ _ => expect_bind ?_
  refine hg.assignment.bind fun e e' he => expect_bind (expect_bind (rounds_bind fun n => ?_))
  refine (manyUntil _ (switchCase_alike hg) n).bind fun cases cases' hcases => expect_bind ?_
  refine originFrom_bind hstart fun o o' ho => pure ?_
  simp only [Stmt.relocate, SwitchCase.relocateAll_eq_map, ho, he, hcases]

theorem raiseStatement_alike :
    BeginsAlike R (Stmt.relocate R.view) (raiseStatement g) (raiseStatement g) := by
  refine .get_bind fun start hstart => advance_bind fun _ _ _ => ?_
  refine hg.assignment.bind fun e e' he => semicolon_bind ?_
  refine originFrom_bind hstart fun o o' ho => pure ?_
  simp only [Stmt.relocate, ho, he]

theorem handler_alike :
    ReadsAlike R (Option.map (Handler.relocate R.view)) (handler g) (handler g) := by
  refine behind _ (handlerParam_alike.bind fun param param' hparam => ?_)
  refine (block_alike hg).bind fun body body' hbody => pure ?_
  simp only [Handler.relocate, hparam, hbody]

theorem attemptStatement_alike :
    BeginsAlike R (Stmt.relocate R.view) (attemptStatement g) (attemptStatement g) := by
  refine .get_bind fun start hstart => advance_bind fun _ _ _ => ?_
  refine (block_alike hg).bind fun b b' hb => ?_
  refine (handler_alike hg).bind fun caught caught' hcaught => ?_
  refine (behind _ (block_alike hg)).bind fun final final' hfinal => ?_
  have hsome : caught'.isNone = caught.isNone := by
    rw [← Option.isNone_map (f := Handler.relocate R.view), hcaught, Option.isNone_map]
  have hsome' : final'.isNone = final.isNone := by
    rw [← Option.isNone_map (f := Block.relocate R.view), hfinal, Option.isNone_map]
  rw [hsome, hsome']
  split
  · exact fail _
  · refine originFrom_bind hstart fun o o' ho => pure ?_
    simp only [Stmt.relocate, Handler.relocateIfAny_eq_map, Block.relocateIfAny_eq_map, ho, hb,
      hcaught, hfinal]

theorem returnStatement_alike :
    BeginsAlike R (Stmt.relocate R.view) (returnStatement g) (returnStatement g) := by
  have hvalue :
      ReadsAlike R (Option.map (Expr.relocate R.view)) (returnValue g) (returnValue g) := by
    refine kind_bind fun k => ?_
    split
    · exact pure rfl
    · exact hg.assignment.map fun _ _ he => congrArg some he
  refine .get_bind fun start hstart => advance_bind fun _ _ _ => hvalue.bind fun v v' hv => ?_
  refine semicolon_bind (originFrom_bind hstart fun o o' ho => pure ?_)
  simp only [Stmt.relocate, Expr.relocateIfAny_eq_map, ho, hv]

theorem expressionStatement_alike :
    BeginsAlike R (Stmt.relocate R.view) (expressionStatement g) (expressionStatement g) := by
  refine .get_bind fun start hstart => (readAssignment_alike hg).bind fun e e' he => ?_
  refine semicolon_bind (originFrom_bind hstart fun o o' ho => pure ?_)
  simp only [Stmt.relocate, ho, he]

theorem readStatement_alike :
    ReadsAlike R (Stmt.relocate R.view) (readStatement g) (readStatement g) := by
  refine of_begins readStatement_stops (.kind_bind fun k => ?_)
  split
  · exact declarationStatement_alike hg
  · exact declarationStatement_alike hg
  · exact declarationStatement_alike hg
  · exact functionDeclaration_alike hg
  · exact blockStatement_alike hg
  · exact branchStatement_alike hg
  · exact whileStatement_alike hg
  · exact forStatement_alike hg
  · exact switchStatement_alike hg
  · exact jumpStatement_alike fun _ => rfl
  · exact jumpStatement_alike fun _ => rfl
  · exact raiseStatement_alike hg
  · exact attemptStatement_alike hg
  · exact returnStatement_alike hg
  · exact emptyStatement_alike
  · exact expressionStatement_alike hg

end Statements

theorem Alike.deeper (hg : g.Alike R) : (deeper g).Alike R where
  ends := readAssignment_stops
  assignment := readAssignment_alike hg
  exponent := readExponent_alike hg
  unary := readUnary_alike hg
  member := readMember_alike hg
  statement := readStatement_alike hg

theorem alike_upTo (R : Respacing) (n : Nat) : (upTo n).Alike R := by
  induction n with
  | zero => exact ⟨.fail _, fail _, fail _, fail _, fail _, fail _⟩
  | succ n ih => exact ih.deeper

end Grammar

end ScriptEngine
