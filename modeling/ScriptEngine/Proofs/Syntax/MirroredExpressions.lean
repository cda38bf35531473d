import ScriptEngine.Proofs.Syntax.Provenance

/-!
# Expressions side by side

The readers of expressions are mirrored by themselves, over grammars that are. Expressions end
before a closing parenthesis as they end before the end of input, so they may reach the end of the
stretch; statements may only where the input ends.
-/

namespace ScriptEngine

open Token Outline Parse Mirrors

namespace Grammar

structure Mirrored (W : Window) (x : Nat) (g g' : Grammar) : Prop where
  assignment : ∀ y whole, x < y → Mirrors W whole y g.assignment g'.assignment
    fun z e e' => y < z ∧ e.Kept W.source e'
  exponent : ∀ y whole, x < y → Mirrors W whole y g.exponent g'.exponent
    fun z e e' => y < z ∧ e.Kept W.source e'
  unary : ∀ y whole, x < y → Mirrors W whole y g.unary g'.unary
    fun z e e' => y < z ∧ e.Kept W.source e'
  member : ∀ y whole, x < y → Mirrors W whole y g.member g'.member
    fun z e e' => y < z ∧ e.Kept W.source e'
  statement : ∀ y whole, x < y → (whole → W.stop = .endOfInput) →
    Mirrors W whole y g.statement g'.statement fun z st st' => y < z ∧ st.Kept W.source st'

variable {W : Window} {x : Nat} {g g' : Grammar} {whole : Prop}

theorem Mirrored.mono {y : Nat} (h : Mirrored W x g g') (hxy : x ≤ y) : Mirrored W y g g' where
  assignment z whole hz := h.assignment z whole (by omega)
  exponent z whole hz := h.exponent z whole (by omega)
  unary z whole hz := h.unary z whole (by omega)
  member z whole hz := h.member z whole (by omega)
  statement z whole hz := h.statement z whole (by omega)

theorem block_mirrors (hg : Mirrored W x g g') :
    Mirrors W whole x (block g) (block g') fun y b b' => x < y ∧ b.Kept W.source b' := by
  refine get_bind (expect_bind (rounds_bind ?_))
  refine bind_of_lt (manyUntil (fun y hy => hg.statement y False (by omega) nofun)
    (length_lt_rounds W _)) fun y ss ss' hy hss => ?_
  refine expect_bind (originFrom_bind fun o' => pure ⟨by omega, by omega, ?_⟩)
  exact Kept.cons trivial (Kept.stmts hss)

theorem functionRest_mirrors (hg : Mirrored W x g g') :
    Mirrors W whole x (functionRest g) (functionRest g') fun y f f' =>
      x < y ∧ Kept W.source (Ident.sameList f'.1 f.1 && f'.2.same f.2)
        (f.1.map Entry.ofIdent ++ f.2.outline) := by
  refine expect_bind (bind_of_lt (separatedBefore fun y _ => expectName _)
    fun y ps ps' hy hps => ?_)
  refine expect_bind ((block_mirrors (hg.mono (by omega))).bind fun z b b' hz hb => ?_)
  exact pure ⟨by omega, by omega, (Kept.idents hps).append hb.2⟩

theorem arguments_mirrors (hg : Mirrored W x g g') :
    Mirrors W whole x (arguments g) (arguments g') fun y es es' =>
      x < y ∧ Kept W.source (Expr.sameList es' es) (Expr.outlines es) := by
  refine expect_bind (bind_of_lt (separatedBefore fun y hy => hg.assignment y False (by omega))
    fun y es es' hy hes => ?_)
  exact expect_bind (pure ⟨by omega, by omega, Kept.exprs hes⟩)

theorem argumentsIfAny_mirrors (hg : Mirrored W x g g') :
    Mirrors W whole x (argumentsIfAny g) (argumentsIfAny g') fun _ es es' =>
      Kept W.source (Expr.sameList es' es) (Expr.outlines es) := by
  refine check_bind rfl ?_
  split
  · exact (arguments_mirrors hg).mono fun y es es' _ h => ⟨.inl h.1, h.2⟩
  next hk =>
    refine pure ⟨.inr fun _ => ?_, Kept.nil⟩
    rw [eq_false_of_ne_true hk]
    exact beq_eq_false_iff_ne.mpr (W.stop_ne nofun nofun)

theorem fieldKey?_congr {t t' : Token} (h : t'.word = t.word) : fieldKey? t' = fieldKey? t := by
  obtain ⟨hkind, htext⟩ := Prod.mk.inj h
  simp only [fieldKey?, Token.literalValue?, hkind, htext]

theorem kind_ne_end_of_fieldKey? {t : Token} {key : String} (h : fieldKey? t = some key) :
    t.kind ≠ .endOfInput := by
  intro hk
  simp [fieldKey?, hk, Token.literalValue?, Kind.literalValue?] at h

theorem field_mirrors (hg : Mirrored W x g g') :
    Mirrors W whole x (field g) (field g') fun y f f' => x < y ∧ f.Kept W.source f' := by
  refine peek_bind fun t' ht' => ?_
  rw [fieldKey?_congr ht']
  cases hkey : fieldKey? (W.source.get (W.base + x)) with
  | none => exact of_ne_ok (run_fail_ne_ok _)
  | some key =>
    refine advance_bind (kind_ne_end_of_fieldKey? hkey) fun _ _ => expect_bind ?_
    refine (hg.assignment _ whole (by omega)).bind fun y e e' hy he => ?_
    refine pure ⟨by omega, by omega, ?_⟩
    simpa [Field.Kept, Field.sameList, Field.outlines] using show Kept _ _ _ from he.2

theorem functionName_mirrors :
    Mirrors W whole x functionName functionName fun _ n n' =>
      Kept W.source (Ident.sameOption n' n) (identIfAny n) := by
  refine kind_bind rfl ?_
  cases hk : W.source.kindAt (W.base + x) with
  | identifier name =>
    refine (Mirrors.expectName _).bind fun y n n' hy hn => pure ?_
    exact ⟨.inl hn.1, Kept.ident hn.2⟩
  | _ =>
    refine pure ⟨.inr fun _ => ?_, Kept.nil⟩
    rcases W.stops with hstop | hstop <;> rw [Window.stop, hstop]

theorem leaf_mirrors {leaf leaf' : Origin → Expr} {start start' : Nat} (hstart : start = W.base + x)
    (hend : W.source.kindAt (W.base + x) ≠ .endOfInput) (horigin : ∀ o, (leaf o).origin = o)
    (hkept : ∀ o o', Kept W.source ((leaf' o').same (leaf o)) (leaf o).descendants) :
    Mirrors W whole x (do let _ ← advance; return leaf (← originFrom start))
      (do let _ ← advance; return leaf' (← originFrom start'))
      fun z e e' => x < z ∧ W.Finds x z e e' := by
  subst hstart
  refine advance_bind hend fun _ _ => originFrom_bind fun o' => pure ⟨by omega, by omega, ?_, ?_⟩
  · exact horigin _
  · exact hkept _ o'

theorem primary_mirrors (hg : Mirrored W x g g') :
    Mirrors W whole x (primary g) (primary g') (W.Finds x) := by
  refine get_bind (peek_bind fun t' ht' => ?_)
  obtain ⟨hkind, htext⟩ := Prod.mk.inj ht'
  have hvalue : t'.literalValue? = (W.source.get (W.base + x)).literalValue? := by
    simp only [Token.literalValue?, hkind, htext]
  rw [hkind, hvalue]
  have hend : (W.source.get (W.base + x)).kind ≠ .endOfInput →
      W.source.kindAt (W.base + x) ≠ .endOfInput := id
  cases hk : (W.source.get (W.base + x)).kind with
  | number form =>
    cases hv : (W.source.get (W.base + x)).literalValue? with
    | none => exact of_ne_ok run_unexpected_ne_ok
    | some v =>
      have hsame := W.regular.number_eq _ _ hv
      exact leaf_mirrors rfl (hend (hk ▸ nofun)) (fun _ => rfl) fun _ _ => ⟨hsame, nofun⟩
  | string v =>
    have hsame := beq_self_eq_true v
    exact leaf_mirrors rfl (hend (hk ▸ nofun)) (fun _ => rfl) fun _ _ => ⟨hsame, nofun⟩
  | identifier n =>
    have hsame := beq_self_eq_true n
    exact leaf_mirrors rfl (hend (hk ▸ nofun)) (fun _ => rfl) fun _ _ => ⟨hsame, nofun⟩
  | endOfInput => exact of_ne_ok run_unexpected_ne_ok
  | keyword w =>
    cases w with
    | true_ | false_ | null | this =>
      exact leaf_mirrors rfl (hend (hk ▸ nofun)) (fun _ => rfl) fun _ _ => ⟨rfl, nofun⟩
    | function =>
      refine advance_bind (hend (hk ▸ nofun)) fun _ _ => ?_
      refine functionName_mirrors.bind fun y n n' hy hn => ?_
      refine (functionRest_mirrors (hg.mono (by omega))).bind fun z f f' hz hf => ?_
      refine originFrom_bind fun o' => pure ⟨by omega, by omega, rfl, ?_⟩
      have hfunction := hn.append hf.2
      rw [← Bool.and_assoc, ← List.append_assoc] at hfunction
      exact hfunction
    | _ => exact of_ne_ok run_unexpected_ne_ok
  | symbol c =>
    cases c with
    | openParen =>
      refine advance_bind (hend (hk ▸ nofun)) fun _ _ => ?_
      refine bind_of_lt (hg.assignment _ False (by omega)) fun y e e' hy he => ?_
      refine expect_bind (originFrom_bind fun o' => pure ⟨by omega, by omega, by omega, ?_, ?_⟩)
      · exact Expr.origin_withOrigin _ _
      · rw [Expr.same_withOrigin, Expr.same_withOrigin_right, Expr.descendants_withOrigin]
        exact he.2.of_cons
    | openBracket =>
      refine advance_bind (hend (hk ▸ nofun)) fun _ _ => rounds_bind ?_
      refine bind_of_lt (separatedUntil (fun y hy => hg.assignment y False (by omega))
        (length_lt_rounds W _)) fun y es es' hy hes => ?_
      refine expect_bind (originFrom_bind fun o' => pure ⟨by omega, by omega, by omega, rfl, ?_⟩)
      exact Kept.exprs hes
    | openBrace =>
      refine advance_bind (hend (hk ▸ nofun)) fun _ _ => rounds_bind ?_
      refine bind_of_lt (separatedUntil (fun y hy => field_mirrors (hg.mono (by omega)))
        (length_lt_rounds W _)) fun y fs fs' hy hfs => ?_
      refine expect_bind (originFrom_bind fun o' => pure ⟨by omega, by omega, by omega, rfl, ?_⟩)
      exact Kept.fields hfs
    | _ => exact of_ne_ok run_unexpected_ne_ok

theorem memberSuffix_mirrors (hg : Mirrored W x g g') :
    Mirrors W whole x (memberSuffix g) (memberSuffix g')
      (Links x fun _ p p' => Kept W.source (p'.same p) p.outline) := by
  refine eat_bind nofun nofun (fun _ => ?_) fun _ => ?_
  · exact expectPropertyName.bind fun y n n' hy hn => pure (.more (by omega) (Kept.ident hn.2))
  · refine eat_bind nofun nofun (fun _ => ?_) fun _ => pure .done
    refine bind_of_lt (hg.assignment _ False (by omega)) fun y e e' hy he => ?_
    exact expect_bind (pure ⟨by omega, .more (by omega) he.2⟩)

theorem memberHead_mirrors (hg : Mirrored W x g g') :
    Mirrors W whole x (memberHead g) (memberHead g') (W.Finds x) := by
  refine get_bind (eat_bind nofun nofun (fun _ => ?_) fun _ => primary_mirrors hg)
  refine (hg.member _ whole (by omega)).bind fun y e e' hy he => ?_
  refine (argumentsIfAny_mirrors (hg.mono (by omega))).bind fun z es es' hz hes => ?_
  exact originFrom_bind fun o' => pure ⟨by omega, rfl, he.2.append hes⟩

def Joins (join : Origin → Expr → Expr → Expr) : Prop :=
  ∀ o o' l l' r r', (join o l r).origin = o ∧
    (join o l r).descendants = (l.entry :: l.descendants) ++ (r.entry :: r.descendants) ∧
    (join o' l' r').same (join o l r) = (l'.same l && r'.same r)

theorem joins_coalesce : Joins .coalesce :=
  fun _ _ _ _ _ _ => ⟨rfl, rfl, rfl⟩

theorem joins_logical (op : LogicalOp) : Joins (.logical · op) :=
  fun _ _ _ _ _ _ => ⟨rfl, rfl, by simp [Expr.same]⟩

theorem joins_binary (op : BinaryOp) : Joins (.binary · op) :=
  fun _ _ _ _ _ _ => ⟨rfl, rfl, by simp [Expr.same]⟩

theorem joins_of_mem_operators : ∀ row ∈ operators, ∀ p ∈ row, Joins p.2 := by
  simp only [operators, List.forall_mem_cons, joins_coalesce, joins_logical,
    joins_binary, List.not_mem_nil, false_implies, implies_true, and_self]

section Operators

variable {r : Nat} {k : Kind} {join : Origin → Expr → Expr → Expr}

theorem mem_operators_of_levelAt (h : levelAt r k = some join) :
    ∃ row ∈ operators, ∃ c, k = .symbol c ∧ (c, join) ∈ row := by
  unfold levelAt levels at h
  rw [List.getD_eq_getElem?_getD, List.getElem?_map] at h
  cases hrow : operators[r - 3]? with
  | none => simp [hrow] at h
  | some row =>
    simp only [hrow, Option.map_some, Option.getD_some] at h
    refine ⟨row, List.mem_of_getElem? hrow, ?_⟩
    cases k with
    | symbol c =>
      obtain ⟨before, behind, rfl, -⟩ := List.lookup_eq_some_iff.mp h
      exact ⟨c, rfl, by simp⟩
    | _ => cases h

theorem levelAt_stop (r : Nat) : levelAt r W.stop = none := by
  have hclose : ∀ row ∈ operators, ∀ p ∈ row, p.1 ≠ .closeParen := by decide
  cases h : levelAt r W.stop with
  | none => rfl
  | some join =>
    obtain ⟨row, hrow, c, hc, hmem⟩ := mem_operators_of_levelAt h
    exact absurd hc (W.stop_ne nofun fun hclosing =>
      hclose row hrow _ hmem (Kind.symbol.inj hclosing))

variable {e e' d d' : Expr}

theorem kept_join (h : levelAt r k = some join) (he : e.Kept W.source e')
    (hd : d.Kept W.source d') (o o' : Origin) :
    (join o e d).origin = o ∧
      Kept W.source ((join o' e' d').same (join o e d)) (join o e d).descendants := by
  obtain ⟨row, hrow, c, -, hmem⟩ := mem_operators_of_levelAt h
  obtain ⟨horigin, hbelow, hsame⟩ := joins_of_mem_operators row hrow _ hmem o o' e e' d d'
  rw [hbelow, hsame]
  exact ⟨horigin, he.append hd⟩

end Operators

section Rounds

variable {y : Nat} {e e' : Expr}

theorem memberStep_mirrors (hg : Mirrored W y g g') (hxy : x < y) (he : e.Kept W.source e') :
    Mirrors W whole y (memberStep g (W.base + x) e) (memberStep g' (W.place + x) e')
      (Links y (W.Finds x)) := by
  refine (memberSuffix_mirrors hg).bind fun z p p' hz hp => ?_
  cases hp with
  | done => exact pure .done
  | more hlt hp =>
    exact originFrom_bind fun o' => pure (.more hlt ⟨by omega, rfl, he.append hp⟩)

theorem callStep_mirrors (hg : Mirrored W y g g') (hxy : x < y) (he : e.Kept W.source e') :
    Mirrors W whole y (callStep g (W.base + x) e) (callStep g' (W.place + x) e')
      (Links y (W.Finds x)) := by
  refine check_bind rfl ?_
  split
  · refine (arguments_mirrors hg).bind fun z es es' hz hes => originFrom_bind fun o' => ?_
    exact pure ⟨.inl hes.1, .more hes.1 ⟨by omega, rfl, he.append hes.2⟩⟩
  next hk =>
    refine (memberStep_mirrors hg hxy he).mono fun z o o' hz h => ⟨.inr fun _ => ?_, h⟩
    rw [eq_false_of_ne_true hk]
    exact beq_eq_false_iff_ne.mpr (W.stop_ne nofun nofun)

theorem levelStep_mirrors {r : Nat} {next next' : Parse Expr} (hxy : x < y)
    (he : e.Kept W.source e') (hnext : ∀ z, y < z → Mirrors W whole z next next'
      fun w d d' => z < w ∧ d.Kept W.source d') :
    Mirrors W whole y (levelStep (levelAt r) next (W.base + x) e)
      (levelStep (levelAt r) next' (W.place + x) e') (Links y (W.Finds x)) := by
  refine kind_bind rfl ?_
  cases hjoin : levelAt r (W.source.kindAt (W.base + y)) with
  | none => exact pure ⟨.inr fun _ => by rw [levelAt_stop], .done⟩
  | some join =>
    have hend : W.source.kindAt (W.base + y) ≠ .endOfInput := by
      obtain ⟨_, _, c, hc, -⟩ := mem_operators_of_levelAt hjoin
      exact hc ▸ nofun
    refine advance_bind hend fun _ _ => (hnext _ (by omega)).bind fun z d d' hz hd => ?_
    refine originFrom_bind fun o' => pure ⟨.inl (by omega), .more (by omega) ?_⟩
    obtain ⟨horigin, hbelow⟩ := kept_join hjoin he hd.2
      (originAt W.source (W.base + x) (W.base + z)) o'
    exact ⟨by omega, horigin, hbelow⟩

end Rounds

theorem updateOp?_stop : updateOp? W.stop = none := by
  rcases W.stops with h | h <;> rw [Window.stop, h] <;> rfl

theorem assignOp?_stop : assignOp? W.stop = none := by
  rcases W.stops with h | h <;> rw [Window.stop, h] <;> rfl

theorem updated_mirrors (hcall : Mirrors W whole x (call g) (call g') (W.Finds x)) :
    Mirrors W whole x (updated g) (updated g') (W.Finds x) := by
  refine get_bind (hcall.bind fun y e e' hy he => kind_bind rfl ?_)
  have hlt := he.lt
  cases hop : updateOp? (W.source.kindAt (W.base + y)) with
  | none => exact pure ⟨.inr fun _ => by rw [updateOp?_stop], he⟩
  | some op =>
    cases ht : e.target? with
    | none => exact of_ne_ok (run_fail_ne_ok _)
    | some t =>
      obtain ⟨t', ht', hkept⟩ := he.below.target ht
      rw [ht']
      have hend : W.source.kindAt (W.base + y) ≠ .endOfInput := fun hk =>
        by simp [hk, updateOp?] at hop
      refine advance_bind hend fun _ _ => originFrom_bind fun o' => ?_
      refine pure ⟨.inl (by omega), by omega, rfl, ?_⟩
      simpa [Expr.same, Expr.descendants] using hkept

theorem readUnary_mirrors (hg : Mirrored W x g g')
    (hupdated : Mirrors W whole x (updated g) (updated g') (W.Finds x)) :
    Mirrors W whole x (readUnary g) (readUnary g') (W.Finds x) := by
  refine get_bind (kind_bind rfl ?_)
  cases hupdate : updateOp? (W.source.kindAt (W.base + x)) with
  | some op =>
    have hend : W.source.kindAt (W.base + x) ≠ .endOfInput := fun hk => by
      simp [hk, updateOp?] at hupdate
    refine advance_bind hend fun _ _ => (hg.unary _ whole (by omega)).bind fun y e e' hy he => ?_
    cases ht : e.target? with
    | none => exact of_ne_ok (run_fail_ne_ok _)
    | some t =>
      obtain ⟨t', ht', hkept⟩ := he.2.of_cons.target ht
      rw [ht']
      refine originFrom_bind fun o' => pure ⟨.inl (by omega), by omega, rfl, ?_⟩
      simpa [Expr.same, Expr.descendants] using hkept
  | none =>
    cases hunary : unaryOp? (W.source.kindAt (W.base + x)) with
    | some op =>
      have hend : W.source.kindAt (W.base + x) ≠ .endOfInput := fun hk => by
        simp [hk, unaryOp?] at hunary
      refine advance_bind hend fun _ _ => (hg.unary _ whole (by omega)).bind fun y e e' hy he => ?_
      refine originFrom_bind fun o' => pure ⟨.inl (by omega), by omega, rfl, ?_⟩
      simpa [Expr.same, Expr.descendants] using show Kept _ _ _ from he.2
    | none => exact hupdated.mono fun y e e' _ he => ⟨.inl he.lt, he⟩

theorem readExponent_mirrors (hg : Mirrored W x g g')
    (hunary : Mirrors W whole x (readUnary g) (readUnary g') fun y e e' =>
      W.Finds x y e e' ∧ e.Kept W.source e') :
    Mirrors W whole x (readExponent g) (readExponent g') (W.Finds x) := by
  refine get_bind (hunary.bind fun y e e' hy he => ?_)
  have hlt := he.1.lt
  refine eat_bind nofun nofun (fun _ => ?_) fun _ => pure he.1
  refine (hg.exponent _ whole (by omega)).bind fun z d d' hz hd => originFrom_bind fun o' => ?_
  exact pure ⟨by omega, rfl, he.2.append hd.2⟩

theorem conditional_mirrors (hg : Mirrored W x g g')
    (htest : Mirrors W whole x (ladder (readExponent g) levels) (ladder (readExponent g') levels)
      fun y e e' => W.Finds x y e e' ∧ e.Kept W.source e') :
    Mirrors W whole x (conditional g) (conditional g') (W.Finds x) := by
  refine get_bind (htest.bind fun y e e' hy he => ?_)
  have hlt := he.1.lt
  refine eat_bind nofun nofun (fun _ => ?_) fun _ => pure he.1
  refine (hg.assignment _ whole (by omega)).bind fun z d d' hz hd => expect_bind ?_
  refine (hg.assignment _ whole (by omega)).bind fun w f f' hw hf => originFrom_bind fun o' => ?_
  exact pure ⟨by omega, rfl, (he.2.append hd.2).append hf.2⟩

theorem readAssignment_mirrors (hg : Mirrored W x g g')
    (hleft : Mirrors W whole x (conditional g) (conditional g') (W.Finds x)) :
    Mirrors W whole x (readAssignment g) (readAssignment g') (W.Finds x) := by
  refine get_bind (hleft.bind fun y e e' hy he => kind_bind rfl ?_)
  have hlt := he.lt
  cases hop : assignOp? (W.source.kindAt (W.base + y)) with
  | none => exact pure ⟨.inr fun _ => by rw [assignOp?_stop], he⟩
  | some op =>
    cases ht : e.target? with
    | none => exact of_ne_ok (run_fail_ne_ok _)
    | some t =>
      obtain ⟨t', ht', hkept⟩ := he.below.target ht
      rw [ht']
      have hend : W.source.kindAt (W.base + y) ≠ .endOfInput := fun hk =>
        by simp [hk, assignOp?] at hop
      refine advance_bind hend fun _ _ => ?_
      refine (hg.assignment _ whole (by omega)).bind fun z d d' hz hd => ?_
      cases op with
      | none =>
        refine originFrom_bind fun o' => pure ⟨.inl (by omega), by omega, rfl, ?_⟩
        exact hkept.append hd.2
      | some op =>
        refine originFrom_bind fun o' => pure ⟨.inl (by omega), by omega, rfl, ?_⟩
        simpa [Expr.same, Expr.descendants] using hkept.append hd.2

section Chains

theorem readerAt_chain {r : Nat} (hr : isChain r = true) :
    readerAt g r = (do
      let start ← get
      let e ← headAt g r
      chain (stepAt g r start) (← rounds) e) := by
  obtain hlevel | rfl | rfl := isChain_iff.mp hr
  · rw [readerAt_level hlevel.1 hlevel.2, stepAt_level hlevel.1 hlevel.2, headAt, if_neg (by omega)]
  · rfl
  · rfl

variable {s : Stream} {i j k : Nat} {r m n : Nat} {e e' : Expr}

theorem run_partAt_zero : partAt g r 0 s i = .ok (e, j) ↔ headAt g r s i = .ok (e, j) := by
  unfold partAt
  rw [run_bind run_get]
  constructor
  · intro h
    obtain ⟨head, k, hhead, hlinks⟩ := of_run_bind h
    cases hlinks
    exact hhead
  · exact fun h => run_bind h

theorem run_partAt_succ : partAt g r (m + 1) s i = .ok (e', j) ↔
    ∃ e k, partAt g r m s i = .ok (e, k) ∧ stepAt g r i e s k = .ok (some e', j) := by
  unfold partAt
  rw [run_bind run_get, run_bind run_get]
  constructor
  · intro h
    obtain ⟨head, l, hhead, h⟩ := of_run_bind h
    obtain ⟨e, k, hlinks, h⟩ := of_run_bind h
    obtain ⟨o, l, hstep, h⟩ := of_run_bind h
    refine ⟨e, k, (run_bind hhead).trans hlinks, ?_⟩
    cases o with
    | none => exact absurd h (run_fail_ne_ok _ _)
    | some y =>
      cases h
      exact hstep
  · rintro ⟨e, k, h, hstep⟩
    obtain ⟨head, l, hhead, hlinks⟩ := of_run_bind h
    rw [run_bind hhead, links, run_bind hlinks, run_bind hstep]
    rfl

def PartFound (W : Window) (n r x y : Nat) (e e' : Expr) : Prop :=
  W.Finds x y e e' ∧ W.base + y ≤ W.source.last ∧
    ∃ m, partAt (upTo n) r m W.source (W.base + x) = .ok (e, W.base + y)

theorem PartFound.kept {y : Nat} (h : PartFound W n r x y e e') (hr : isChain r = true) :
    e.Kept W.source e' := by
  obtain ⟨hfinds, hlast, m, hrun⟩ := h
  have hcases := isChain_iff.mp hr
  have hbounds : 1 ≤ r ∧ r ≤ 19 := by omega
  exact hfinds.kept hlast ⟨n, r, hbounds.1, hbounds.2, .inr ⟨hr, m, hrun⟩⟩

structure ChainMirrored (W : Window) (n r x : Nat) (g' : Grammar) : Prop where
  isChain : isChain r = true
  head : ∀ whole, Mirrors W whole x (headAt (upTo n) r) (headAt g' r) (W.Finds x)
  round : ∀ whole y e e', x < y → e.Kept W.source e' →
    Mirrors W whole y (stepAt (upTo n) r (W.base + x) e) (stepAt g' r (W.place + x) e')
      (Links y (W.Finds x))

theorem ChainMirrored.headFound (h : ChainMirrored W n r x g') :
    Mirrors W whole x (headAt (upTo n) r) (headAt g' r) (PartFound W n r x) :=
  (h.head whole).and_run.mono fun _ _ _ _ hq => ⟨hq.2.2, hq.2.1, 0, run_partAt_zero.mpr hq.1⟩

theorem ChainMirrored.roundFound (h : ChainMirrored W n r x g') {y : Nat}
    (he : PartFound W n r x y e e') :
    Mirrors W whole y (stepAt (upTo n) r (W.base + x) e) (stepAt g' r (W.place + x) e')
      (Links y (PartFound W n r x)) := by
  obtain ⟨m, hrun⟩ := he.2.2
  refine (h.round whole y e e' he.1.lt (he.kept h.isChain)).and_run.mono fun z o o' hz hq => ?_
  obtain ⟨hstep, hlast, hlinks⟩ := hq
  cases hlinks with
  | done => exact .done
  | more hlt hfinds =>
    exact .more hlt ⟨hfinds, hlast, m + 1, run_partAt_succ.mpr ⟨_, _, hrun, hstep⟩⟩

theorem ChainMirrored.reader (h : ChainMirrored W n r x g') :
    Mirrors W whole x (readerAt (upTo n) r) (readerAt g' r) (W.Finds x) := by
  rw [readerAt_chain h.isChain, readerAt_chain h.isChain]
  refine get_bind (h.headFound.bind fun y e e' hy he => rounds_bind ?_)
  refine (chain (fun z d d' hz hd => h.roundFound hd) (length_lt_rounds W y) he).mono ?_
  exact fun _ _ _ _ hq => hq.1

theorem ChainMirrored.part (h : ChainMirrored W n r x g') (m : Nat) :
    Mirrors W whole x (partAt (upTo n) r m) (partAt g' r m) (W.Finds x) := by
  refine get_bind (h.headFound.bind fun y e e' hy he => ?_)
  have hlinks : Mirrors W whole y (links (stepAt (upTo n) r (W.base + x)) m e)
      (links (stepAt g' r (W.place + x)) m e') (PartFound W n r x) := by
    induction m with
    | zero => exact pure he
    | succ m ih =>
      refine ih.bind fun z d d' hz hd => (h.roundFound hd).bind fun w o o' hw ho => ?_
      cases ho with
      | done => exact of_ne_ok (run_fail_ne_ok _)
      | more hlt hfound => exact pure hfound
  exact hlinks.mono fun _ _ _ _ hq => hq.1

end Chains

section Readers

variable {n r : Nat}

theorem kept_of_reader {p' : Parse Expr} (hr : 1 ≤ r) (hr' : r ≤ 19)
    (h : Mirrors W whole x (readerAt (upTo n) r) p' (W.Finds x)) :
    Mirrors W whole x (readerAt (upTo n) r) p' fun y e e' =>
      W.Finds x y e e' ∧ e.Kept W.source e' :=
  h.and_run.mono fun _ _ _ _ hq => ⟨hq.2.2, hq.2.2.kept hq.2.1 ⟨n, r, hr, hr', .inl hq.1⟩⟩

theorem chainMirrored (hg : Mirrored W x (upTo n) g') (hr : isChain r = true)
    (htighter : r ≠ 18 → ∀ y whole, x ≤ y →
      Mirrors W whole y (readerAt (upTo n) (r + 1)) (readerAt g' (r + 1)) (W.Finds y)) :
    ChainMirrored W n r x g' := by
  refine ⟨hr, fun whole => ?_, fun whole y e e' hxy he => ?_⟩
  · by_cases h18 : r = 18
    · subst h18
      exact memberHead_mirrors hg
    · rw [headAt, headAt, if_neg h18, if_neg h18]
      exact htighter h18 x whole (Nat.le_refl x)
  · have hgy := hg.mono (Nat.le_of_lt hxy)
    obtain hlevel | rfl | rfl := isChain_iff.mp hr
    · rw [stepAt_level hlevel.1 hlevel.2, stepAt_level hlevel.1 hlevel.2]
      refine levelStep_mirrors hxy he fun z hz => ?_
      refine (kept_of_reader (by omega) (by omega) (htighter (by omega) z whole (by omega))).mono ?_
      exact fun _ _ _ _ hq => ⟨hq.1.lt, hq.2⟩
    · exact callStep_mirrors hgy hxy he
    · exact memberStep_mirrors hgy hxy he

theorem readerAt_mirrors (hg : Mirrored W x (upTo n) g') (hr : 1 ≤ r) (hr' : r ≤ 19) :
    Mirrors W whole x (readerAt (upTo n) r) (readerAt g' r) (W.Finds x) := by
  -- from the tightest reader to the loosest one
  obtain ⟨d, rfl⟩ : ∃ d, r = 19 - d := ⟨19 - r, by omega⟩
  induction d generalizing x whole with
  | zero => exact primary_mirrors hg
  | succ d ih =>
    generalize hrd : 19 - (d + 1) = r at *
    have htighter : ∀ y whole, x ≤ y →
        Mirrors W whole y (readerAt (upTo n) (r + 1)) (readerAt g' (r + 1)) (W.Finds y) := by
      intro y whole hy
      rw [show r + 1 = 19 - d by omega]
      exact ih (hg.mono hy) (by omega) (by omega)
    by_cases hchain : isChain r = true
    · exact (chainMirrored hg hchain fun _ => htighter).reader
    · have hnext := htighter x whole (Nat.le_refl x)
      have hkept := kept_of_reader (by omega) (by omega) hnext
      have hcases : r = 1 ∨ r = 2 ∨ r = 14 ∨ r = 15 ∨ r = 16 := by
        rw [isChain_iff] at hchain
        omega
      obtain rfl | rfl | rfl | rfl | rfl := hcases
      · exact readAssignment_mirrors hg hnext
      · exact conditional_mirrors hg hkept
      · exact readExponent_mirrors hg hkept
      · exact readUnary_mirrors hg hnext
      · exact updated_mirrors hnext

theorem chainMirrored_of_isChain (hg : Mirrored W x (upTo n) g') (hr : isChain r = true) :
    ChainMirrored W n r x g' := by
  refine chainMirrored hg hr fun h18 y whole hy => ?_
  have hcases := isChain_iff.mp hr
  exact readerAt_mirrors (hg.mono hy) (by omega) (by omega)

end Readers

end Grammar

end ScriptEngine
