import ScriptEngine.Proofs.Syntax.MirroredExpressions

/-!
# Statements side by side

The readers of statements are mirrored by themselves. A statement may reach the end of the stretch
only where the input ends, because a `return` without a value needs to see that.
-/

namespace ScriptEngine

open Token Outline Parse Mirrors

namespace Kept

variable {s : Stream}

theorem exprIfAny {o o' : Option Expr} (h : Option.Rel (Expr.Kept s) o o') :
    Kept s (Expr.sameOption o' o) (Expr.outlineIfAny o) := by
  cases h with
  | none => exact nil
  | some h => exact h

theorem stmtIfAny {o o' : Option Stmt} (h : Option.Rel (Stmt.Kept s) o o') :
    Kept s (Stmt.sameOption o' o) (Stmt.outlineIfAny o) := by
  cases h with
  | none => exact nil
  | some h => exact h

theorem blockIfAny {o o' : Option Block} (h : Option.Rel (Block.Kept s) o o') :
    Kept s (Block.sameOption o' o) (Block.outlineIfAny o) := by
  cases h with
  | none => exact nil
  | some h => exact h

end Kept

structure Window.FindsStmt (W : Window) (x y : Nat) (st st' : Stmt) : Prop where
  lt : x < y
  origin : st.origin = Parse.originAt W.source (W.base + x) (W.base + y)
  below : Kept W.source (st'.same st) st.descendants

namespace Grammar

variable {W : Window} {x y : Nat} {g g' : Grammar} {whole : Prop}

theorem semicolon_mirrors : Mirrors W whole x semicolon semicolon fun _ _ _ => True :=
  eat_bind nofun nofun (fun _ => pure trivial) fun _ => pure trivial

theorem declarator_mirrors (hg : Mirrored W x g g') :
    Mirrors W whole x (declarator g) (declarator g') fun y d d' => x < y ∧ d.Kept W.source d' := by
  refine (Mirrors.expectName _).bind fun y n n' hy hn => ?_
  refine Mirrors.bind (Mirrors.behind nofun nofun (hg.assignment _ whole (by omega)))
    fun z o o' hz ho => pure ⟨by omega, ?_⟩
  exact ((Kept.ident hn.2).append (Kept.exprIfAny ho)).append Kept.nil

theorem declaration_mirrors (hg : Mirrored W x g g')
    (hend : W.source.kindAt (W.base + x) ≠ .endOfInput) :
    Mirrors W whole x (declaration g) (declaration g') fun y d d' =>
      x < y ∧ Kept W.source (d'.1 == d.1 && Declarator.sameList d'.2 d.2)
        (Declarator.outlines d.2) := by
  refine advance_bind hend fun t' ht' => rounds_bind ?_
  refine (separated (fun y hy => declarator_mirrors (hg.mono (by omega)))
    (length_lt_rounds W _)).bind fun y ds ds' hy hds => pure ⟨by omega, ?_⟩
  rw [(Prod.mk.inj ht').1, beq_self_eq_true, Bool.true_and]
  exact Kept.declarators hds.2

theorem declarationStatement_mirrors (hg : Mirrored W x g g')
    (hend : W.source.kindAt (W.base + x) ≠ .endOfInput) :
    Mirrors W whole x (declarationStatement g) (declarationStatement g') (W.FindsStmt x) := by
  refine get_bind ((declaration_mirrors hg hend).bind fun y d d' hy hd => ?_)
  refine semicolon_mirrors.bind fun z _ _ hz _ => originFrom_bind fun o' => ?_
  exact pure ⟨by omega, rfl, hd.2⟩

theorem functionDeclaration_mirrors (hg : Mirrored W x g g')
    (hend : W.source.kindAt (W.base + x) ≠ .endOfInput) :
    Mirrors W whole x (functionDeclaration g) (functionDeclaration g') (W.FindsStmt x) := by
  refine get_bind (advance_bind hend fun _ _ => ?_)
  refine (Mirrors.expectName _).bind fun y n n' hy hn => ?_
  refine (functionRest_mirrors (hg.mono (by omega))).bind fun z f f' hz hf => ?_
  refine originFrom_bind fun o' => pure ⟨by omega, rfl, ?_⟩
  have hname := Kept.ident (s := W.source) hn.2
  have hfunction := hname.append hf.2
  refine ⟨?_, hfunction.2⟩
  simp [Stmt.same, Function.same, Ident.sameOption, hname.1, hf.2.1]

theorem blockStatement_mirrors (hg : Mirrored W x g g') :
    Mirrors W whole x (blockStatement g) (blockStatement g') (W.FindsStmt x) := by
  refine get_bind ((block_mirrors hg).bind fun y b b' hy hb => originFrom_bind fun o' => ?_)
  exact pure ⟨by omega, rfl, hb.2⟩

theorem branchStatement_mirrors (hg : Mirrored W x g g') (hwhole : whole → W.stop = .endOfInput)
    (hend : W.source.kindAt (W.base + x) ≠ .endOfInput) :
    Mirrors W whole x (branchStatement g) (branchStatement g') (W.FindsStmt x) := by
  refine get_bind (advance_bind hend fun _ _ => expect_bind ?_)
  refine (hg.assignment _ whole (by omega)).bind fun y e e' hy he => expect_bind ?_
  refine (hg.statement _ whole (by omega) hwhole).bind fun z st st' hz hst => ?_
  refine Mirrors.bind (Mirrors.behind nofun nofun (hg.statement _ whole (by omega) hwhole))
    fun w o o' hw ho => originFrom_bind fun _ => pure ⟨by omega, rfl, ?_⟩
  exact (he.2.append hst.2).append (Kept.stmtIfAny ho)

theorem whileStatement_mirrors (hg : Mirrored W x g g') (hwhole : whole → W.stop = .endOfInput)
    (hend : W.source.kindAt (W.base + x) ≠ .endOfInput) :
    Mirrors W whole x (whileStatement g) (whileStatement g') (W.FindsStmt x) := by
  refine get_bind (advance_bind hend fun _ _ => expect_bind ?_)
  refine (hg.assignment _ whole (by omega)).bind fun y e e' hy he => expect_bind ?_
  refine (hg.statement _ whole (by omega) hwhole).bind fun z st st' hz hst => ?_
  exact originFrom_bind fun _ => pure ⟨by omega, rfl, he.2.append hst.2⟩

theorem kind_ne_end_of_startsDeclaration {k : Kind} (h : startsDeclaration k = true) :
    k ≠ .endOfInput := by
  intro hk
  simp [startsDeclaration, hk] at h

theorem forInit_mirrors (hg : Mirrored W x g g') (hxy : x < y) :
    Mirrors W False y (forInit g) (forInit g') fun z o o' =>
      y < z ∧ Kept W.source (Stmt.sameOption o' o) (Stmt.initialiserIfAny o) := by
  refine eat_bind nofun nofun (fun _ => pure ⟨by omega, Kept.nil⟩) fun _ => get_bind ?_
  refine kind_bind rfl ?_
  split
  next hstarts =>
    have hend := kind_ne_end_of_startsDeclaration hstarts
    refine (declaration_mirrors (hg.mono (by omega)) hend).bind fun z d d' hz hd => ?_
    refine originFrom_bind fun o' => expect_bind (pure ⟨.inr nofun, by omega, ?_⟩)
    exact Kept.cons trivial hd.2
  next =>
    refine (hg.assignment y False hxy).bind fun z e e' hz he => ?_
    refine originFrom_bind fun o' => expect_bind (pure ⟨.inr nofun, by omega, ?_⟩)
    exact Kept.cons trivial he.2

theorem expressionUnless_mirrors (hg : Mirrored W x g g') (hxy : x < y) (c : Symbol) :
    Mirrors W False y (expressionUnless g c) (expressionUnless g' c) fun _ o o' =>
      Kept W.source (Expr.sameOption o' o) (Expr.outlineIfAny o) := by
  refine Mirrors.unlessAt Kept.nil ?_
  exact (hg.assignment y False hxy).map fun z e e' he => he.2

theorem forStatement_mirrors (hg : Mirrored W x g g') (hwhole : whole → W.stop = .endOfInput)
    (hend : W.source.kindAt (W.base + x) ≠ .endOfInput) :
    Mirrors W whole x (forStatement g) (forStatement g') (W.FindsStmt x) := by
  refine get_bind (advance_bind hend fun _ _ => expect_bind ?_)
  refine bind_of_lt (forInit_mirrors hg (by omega)) fun y i i' hy hi => ?_
  refine bind_of_lt (expressionUnless_mirrors hg (by omega) _) fun z c c' hz hc => expect_bind ?_
  refine bind_of_lt (expressionUnless_mirrors hg (by omega) _) fun w u u' hw hu => expect_bind ?_
  refine (hg.statement _ whole (by omega) hwhole).bind fun v st st' hv hst => ?_
  refine originFrom_bind fun _ => pure ⟨by omega, by omega, by omega, by omega, rfl, ?_⟩
  exact ((hi.2.append hc).append hu).append hst.2

theorem caseTest_mirrors (hg : Mirrored W x g g') (hxy : x < y) :
    Mirrors W whole y (caseTest g) (caseTest g') fun z o o' =>
      y < z ∧ Kept W.source (Expr.sameOption o' o) (Expr.outlineIfAny o) := by
  refine eat_bind nofun nofun (fun _ => ?_) fun _ => ?_
  · exact (hg.assignment _ whole (by omega)).map fun z e e' he => ⟨by omega, he.2⟩
  · refine eat_bind nofun nofun (fun _ => pure ⟨by omega, Kept.nil⟩) fun _ => ?_
    exact of_ne_ok (run_fail_ne_ok _)

theorem switchCase_mirrors (hg : Mirrored W x g g') (hxy : x < y) :
    Mirrors W False y (switchCase g) (switchCase g') fun z c c' => y < z ∧ c.Kept W.source c' := by
  refine (caseTest_mirrors hg hxy).bind fun z o o' hz ho => expect_bind (rounds_bind ?_)
  refine Mirrors.bind (manyUntil (fun w hw => hg.statement w False (by omega) nofun)
    (length_lt_rounds W _)) fun w ss ss' hw hss => pure ⟨by omega, ?_⟩
  exact (ho.2.append (Kept.stmts hss)).append Kept.nil

theorem switchStatement_mirrors (hg : Mirrored W x g g')
    (hend : W.source.kindAt (W.base + x) ≠ .endOfInput) :
    Mirrors W whole x (switchStatement g) (switchStatement g') (W.FindsStmt x) := by
  refine get_bind (advance_bind hend fun _ _ => expect_bind ?_)
  refine (hg.assignment _ whole (by omega)).bind fun y e e' hy he => ?_
  refine expect_bind (expect_bind (rounds_bind ?_))
  refine bind_of_lt (manyUntil (fun z hz => switchCase_mirrors hg (by omega))
    (length_lt_rounds W _)) fun z cs cs' hz hcs => expect_bind (originFrom_bind fun _ => ?_)
  exact pure ⟨by omega, by omega, rfl, he.2.append (Kept.switchCases hcs)⟩

theorem jumpStatement_mirrors {build : Origin → Stmt}
    (hend : W.source.kindAt (W.base + x) ≠ .endOfInput) (horigin : ∀ o, (build o).origin = o)
    (hkept : ∀ o o', Kept W.source ((build o').same (build o)) (build o).descendants) :
    Mirrors W whole x (jumpStatement build) (jumpStatement build) (W.FindsStmt x) := by
  refine get_bind (advance_bind hend fun _ _ => semicolon_mirrors.bind fun y _ _ hy _ => ?_)
  exact originFrom_bind fun o' => pure ⟨by omega, horigin _, hkept _ o'⟩

theorem raiseStatement_mirrors (hg : Mirrored W x g g')
    (hend : W.source.kindAt (W.base + x) ≠ .endOfInput) :
    Mirrors W whole x (raiseStatement g) (raiseStatement g') (W.FindsStmt x) := by
  refine get_bind (advance_bind hend fun _ _ => ?_)
  refine (hg.assignment _ whole (by omega)).bind fun y e e' hy he => ?_
  refine semicolon_mirrors.bind fun z _ _ hz _ => originFrom_bind fun _ => ?_
  exact pure ⟨by omega, rfl, he.2⟩

theorem handlerParam_mirrors :
    Mirrors W whole x handlerParam handlerParam fun _ n n' =>
      Kept W.source (Ident.sameOption n' n) (identIfAny n) := by
  refine eat_bind nofun nofun (fun _ => ?_) fun _ => pure Kept.nil
  refine bind_of_lt (Mirrors.unlessAt Kept.nil ((Mirrors.expectName _).map fun y n n' hn => ?_))
    fun y n n' hy hn => expect_bind (pure ⟨by omega, hn⟩)
  exact Kept.ident hn.2

theorem handler_mirrors (hg : Mirrored W x g g') (hxy : x < y) :
    Mirrors W whole y (handler g) (handler g') fun _ h h' =>
      h'.isNone = h.isNone ∧ Kept W.source (Handler.sameOption h' h) (Handler.outlineIfAny h) := by
  have hbody : Mirrors W whole (y + 1)
      (do let param ← handlerParam; let body ← block g; return Handler.mk param body)
      (do let param ← handlerParam; let body ← block g'; return Handler.mk param body)
      fun z h h' => y + 1 < z ∧
        Kept W.source (Handler.sameOption (some h') (some h)) (Handler.outlineIfAny (some h)) := by
    refine handlerParam_mirrors.bind fun z n n' hz hn => ?_
    refine (block_mirrors (hg.mono (by omega))).bind fun w b b' hw hb => pure ⟨by omega, ?_⟩
    exact hn.append hb.2
  refine Mirrors.mono (Mirrors.behind nofun nofun hbody) fun z h h' hz hh => ?_
  cases hh with
  | none => exact ⟨rfl, Kept.nil⟩
  | some hh => exact ⟨rfl, hh⟩

theorem finalizer_mirrors (hg : Mirrored W x g g') (hxy : x < y) :
    Mirrors W whole y (finalizer g) (finalizer g') fun _ b b' =>
      b'.isNone = b.isNone ∧ Kept W.source (Block.sameOption b' b) (Block.outlineIfAny b) := by
  refine Mirrors.mono (Mirrors.behind nofun nofun (block_mirrors (hg.mono (by omega))))
    fun z b b' hz hb => ⟨?_, Kept.blockIfAny hb⟩
  cases hb <;> rfl

theorem attemptStatement_mirrors (hg : Mirrored W x g g')
    (hend : W.source.kindAt (W.base + x) ≠ .endOfInput) :
    Mirrors W whole x (attemptStatement g) (attemptStatement g') (W.FindsStmt x) := by
  refine get_bind (advance_bind hend fun _ _ => ?_)
  refine (block_mirrors (hg.mono (by omega))).bind fun y b b' hy hb => ?_
  refine (handler_mirrors hg (by omega)).bind fun z h h' hz hh => ?_
  refine (finalizer_mirrors hg (by omega)).bind fun w f f' hw hf => ?_
  rw [hh.1, hf.1]
  split
  · exact of_ne_ok (run_fail_ne_ok _)
  · refine originFrom_bind fun _ => pure ⟨by omega, rfl, ?_⟩
    exact (hb.2.append hh.2).append hf.2

theorem returnValue_mirrors (hg : Mirrored W x g g') (hxy : x < y)
    (hwhole : whole → W.stop = .endOfInput) :
    Mirrors W whole y (returnValue g) (returnValue g') fun _ o o' =>
      Kept W.source (Expr.sameOption o' o) (Expr.outlineIfAny o) := by
  refine kind_bind rfl ?_
  split
  · refine pure ⟨.inr fun h => ?_, Kept.nil⟩
    rw [hwhole h]
    rfl
  · exact (hg.assignment y whole hxy).map fun z e e' he => ⟨.inl he.1, he.2⟩

theorem returnStatement_mirrors (hg : Mirrored W x g g') (hwhole : whole → W.stop = .endOfInput)
    (hend : W.source.kindAt (W.base + x) ≠ .endOfInput) :
    Mirrors W whole x (returnStatement g) (returnStatement g') (W.FindsStmt x) := by
  refine get_bind (advance_bind hend fun _ _ => ?_)
  refine (returnValue_mirrors hg (by omega) hwhole).bind fun y o o' hy ho => ?_
  refine semicolon_mirrors.bind fun z _ _ hz _ => originFrom_bind fun _ => ?_
  exact pure ⟨by omega, rfl, ho⟩

theorem emptyStatement_mirrors (hend : W.source.kindAt (W.base + x) ≠ .endOfInput) :
    Mirrors W whole x emptyStatement emptyStatement (W.FindsStmt x) := by
  refine get_bind (advance_bind hend fun _ _ => originFrom_bind fun _ => ?_)
  exact pure ⟨by omega, rfl, Kept.nil⟩

theorem expressionStatement_mirrors
    (hexpr : Mirrors W whole x (readAssignment g) (readAssignment g') fun y e e' =>
      W.Finds x y e e' ∧ e.Kept W.source e') :
    Mirrors W whole x (expressionStatement g) (expressionStatement g') (W.FindsStmt x) := by
  refine get_bind (hexpr.bind fun y e e' hy he => ?_)
  have hlt := he.1.lt
  refine semicolon_mirrors.bind fun z _ _ hz _ => originFrom_bind fun _ => ?_
  exact pure ⟨by omega, rfl, he.2⟩

theorem readStatement_mirrors (hg : Mirrored W x g g') (hwhole : whole → W.stop = .endOfInput)
    (hexpr : Mirrors W whole x (readAssignment g) (readAssignment g') fun y e e' =>
      W.Finds x y e e' ∧ e.Kept W.source e') :
    Mirrors W whole x (readStatement g) (readStatement g') (W.FindsStmt x) := by
  refine kind_bind rfl ?_
  -- every statement takes a token
  suffices h : Mirrors W whole x _ _ (W.FindsStmt x) from
    h.mono fun _ _ _ _ hst => ⟨.inl hst.lt, hst⟩
  cases hk : W.source.kindAt (W.base + x) with
  | keyword w =>
    have hend : W.source.kindAt (W.base + x) ≠ .endOfInput := hk ▸ nofun
    cases w with
    | var | let_ | const => exact declarationStatement_mirrors hg hend
    | function => exact functionDeclaration_mirrors hg hend
    | if_ => exact branchStatement_mirrors hg hwhole hend
    | while_ => exact whileStatement_mirrors hg hwhole hend
    | for_ => exact forStatement_mirrors hg hwhole hend
    | switch => exact switchStatement_mirrors hg hend
    | break_ | continue_ => exact jumpStatement_mirrors hend (fun _ => rfl) fun _ _ => Kept.nil
    | throw_ => exact raiseStatement_mirrors hg hend
    | try_ => exact attemptStatement_mirrors hg hend
    | return_ => exact returnStatement_mirrors hg hwhole hend
    | _ => exact expressionStatement_mirrors hexpr
  | symbol c =>
    have hend : W.source.kindAt (W.base + x) ≠ .endOfInput := hk ▸ nofun
    cases c with
    | openBrace => exact blockStatement_mirrors hg
    | semicolon => exact emptyStatement_mirrors hend
    | _ => exact expressionStatement_mirrors hexpr
  | _ => exact expressionStatement_mirrors hexpr

theorem kept_of_readStatement {n : Nat} {p' : Parse Stmt}
    (h : Mirrors W whole x (readStatement (upTo n)) p' (W.FindsStmt x)) :
    Mirrors W whole x (readStatement (upTo n)) p' fun y st st' =>
      x < y ∧ st.Kept W.source st' := by
  refine h.and_run.mono fun y st st' _ hq => ?_
  obtain ⟨hrun, hlast, hst⟩ := hq
  have hlt := hst.lt
  refine ⟨hlt, Kept.cons ⟨W.base + x, W.base + y, by omega, hlast, ?_, n, hrun⟩ hst.below⟩
  rw [hst.origin]
  rfl

theorem kept_statement {n : Nat} (hg : Mirrored W x (upTo n) g')
    (hwhole : whole → W.stop = .endOfInput) :
    Mirrors W whole x (readStatement (upTo n)) (readStatement g') fun y st st' =>
      x < y ∧ st.Kept W.source st' := by
  have hexpr : Mirrors W whole x (readerAt (upTo n) 1) (readerAt g' 1) (W.Finds x) :=
    readerAt_mirrors hg (by omega) (by omega)
  exact kept_of_readStatement
    (readStatement_mirrors hg hwhole (kept_of_reader (by omega) (by omega) hexpr))

theorem kept_expression {n r : Nat} (hr : 1 ≤ r) (hr' : r ≤ 19) (hg : Mirrored W x (upTo n) g') :
    Mirrors W whole x (readerAt (upTo n) r) (readerAt g' r) fun y e e' =>
      x < y ∧ e.Kept W.source e' :=
  (kept_of_reader hr hr' (readerAt_mirrors hg hr hr')).mono fun _ _ _ _ hq => ⟨hq.1.lt, hq.2⟩

theorem upTo_mirrored (W : Window) {n n' x : Nat} (h : W.length < x + n') :
    Mirrored W x (upTo n) (upTo n') := by
  refine round_induction (P := fun n n' x => Mirrored W x (upTo n) (upTo n')) ?_ ?_ ?_ n n' x h
  · intro n' x
    constructor <;> intros <;> exact of_ne_ok (run_fail_ne_ok _)
  · intro n n' x ih
    constructor
    · exact fun y whole hy => kept_expression (r := 1) (by omega) (by omega) (ih y hy)
    · exact fun y whole hy => kept_expression (r := 14) (by omega) (by omega) (ih y hy)
    · exact fun y whole hy => kept_expression (r := 15) (by omega) (by omega) (ih y hy)
    · exact fun y whole hy => kept_expression (r := 18) (by omega) (by omega) (ih y hy)
    · exact fun y whole hy hwhole => kept_statement (ih y hy) hwhole
  · intro n x hx hg
    constructor
    · exact fun y whole hy => (hg.assignment y whole hy).beyond (by omega)
    · exact fun y whole hy => (hg.exponent y whole hy).beyond (by omega)
    · exact fun y whole hy => (hg.unary y whole hy).beyond (by omega)
    · exact fun y whole hy => (hg.member y whole hy).beyond (by omega)
    · exact fun y whole hy hwhole => (hg.statement y whole hy hwhole).beyond (by omega)

end Grammar

end ScriptEngine
