import ScriptEngine.Proofs.Evaluation.Hoisting
import ScriptEngine.Proofs.Evaluation.Rounds
import ScriptEngine.Proofs.Evaluation.ScopeStore

/-!
# Names before their declaration

A block or a body binds a name with `let` or `const` when the declaration is run, and not before.
Until then the name means what it means outside: there is an error only if it is not bound there
either. In the root there is nothing outside, but an assignment to the name would bind it there.
-/

-- In a mutual block the linter does not see what the other theorem uses.
set_option linter.unusedSectionVars false

namespace ScriptEngine

open Eval

/-- The scope that the machine is in does not bind a name. If there is no scope around it, no
closure would do so by an assignment. -/
structure Machine.InDeadZone (name : String) (outer : Option ScopeId) (m : Machine) : Prop where
  wellScoped : m.WellScoped
  parent : (m.scopes.scope m.current).parent = outer
  unbound : m.scopes.getLocal? m.current name = none
  closures : outer = none → ∀ id f home, (m.heap.object id).kind = .closure f home →
    m.scopes.Inside m.current home → f.Spares [name]

namespace Seal

variable {S : Seal} {P : Function → Prop} {W V : String → Prop}

theorem compositional_licensed : Compositional (fun x _ => S.Keeps (S.Licensed P W V) x) where
  pure _ _ hm _ := Kept.refl hm
  bind hx hf := hx.bind stable_licensed hf

theorem sequential_licensed : Sequential (fun x _ => S.Keeps (S.Licensed P W V) x) where
  toCompositional := compositional_licensed
  outOfFuel _ hm _ := keepsAt_throw hm _

section Statements

variable {f : Invoke} (hf : ∀ id receiver args frame,
  S.Keeps (fun _ => True) (f id receiver args frame)) {n : Nat}

include hf

theorem keeps_expression (e : Expr) (hp : ∀ k ∈ e.functions, P k) (hw : ∀ x ∈ e.writes, W x) :
    S.Keeps (S.Licensed P W V) (e.eval f) :=
  Expr.eval_congr (exprCongruence stable_licensed fun _ h => h)
    (sameCalls hf stable_licensed) e hp hw

theorem keeps_declarator (kind : BindingKind) {name : Ident} (hname : name.name ∉ S.names)
    (init : Option Expr) (hp : ∀ k ∈ Expr.functionsIfAny init, P k)
    (hw : ∀ x ∈ Expr.writesIfAny init, W x) :
    S.Keeps (S.Licensed P W V) ((Declarator.mk name init).run f kind) := by
  have hdeclare (v : Value) (kind : BindingKind) :
      S.Keeps (S.Licensed P W V) (declare name.name v kind) :=
    fun m hm _ => keepsAt_declare hm (fun _ => hname) (fun _ _ => hname) v
  cases init with
  | none =>
    cases kind with
    | var =>
      intro m hm h
      refine .of_reading ?_
      split
      · exact Kept.refl hm
      · exact hdeclare .undefined .var m hm h
    | let_ => exact hdeclare .undefined .let_
    | const => exact fun m hm _ => keepsAt_throwNamed hm _ _
  | some e =>
    have he : S.Keeps (S.Licensed P W V) (e.eval f) := keeps_expression hf e hp hw
    cases kind with
    | var =>
      exact he.bind stable_licensed fun v m hm _ => keepsAt_assign hm (fun _ h => absurd h hname) v
    | let_ | const => exact he.bind stable_licensed fun v => hdeclare v _

theorem keeps_declaration (kind : BindingKind) (ds : List Declarator)
    (hnames : ∀ x ∈ ds.map Declarator.name, x ∉ S.names)
    (hp : ∀ k ∈ Declarator.functionsOf ds, P k) (hw : ∀ x ∈ Declarator.writesOf kind ds, W x) :
    S.Keeps (S.Licensed P W V) (Declarator.runAll f kind ds) := by
  induction ds with
  | nil => exact compositional_licensed.pure _
  | cons d ds ih =>
    obtain ⟨name, init⟩ := d
    simp only [Declarator.functionsOf, Declarator.writesOf, List.map_cons, List.forall_mem_append,
      List.forall_mem_cons] at hnames hp hw
    have hd : S.Keeps (S.Licensed P W V) ((Declarator.mk name init).run f kind) :=
      keeps_declarator hf kind hnames.1 init hp.1 hw.1.2
    exact hd.bind stable_licensed fun _ => ih hnames.2 hp.2 hw.2

theorem keeps_block (b : Block) (hp : ∀ k ∈ b.functions, P k) (hw : ∀ x ∈ b.writes, W x)
    (hv : ∀ t ∈ b.parts, ∀ x ∈ t.hoistedNames, V x) :
    S.Keeps (S.Licensed P W V) (inBlock (b.runBody f n)) :=
  keeps_inBlock (Block.runBody_congr stmtCongruence (sameCalls hf stable_admitted) b hp hw hv
    fun _ _ => ⟨(rfl : n = n), looping⟩)

theorem keeps_forLoop (o : Origin) (init : Option Stmt) (condition update : Option Expr)
    (body : Stmt) (hp : ∀ k ∈ (Stmt.forLoop o init condition update body).functions, P k)
    (hw : ∀ x ∈ (Stmt.forLoop o init condition update body).writes, W x)
    (hv : ∀ t ∈ (Stmt.forLoop o init condition update body).inner, ∀ x ∈ t.hoistedNames, V x) :
    S.Keeps (S.Licensed P W V) ((Stmt.forLoop o init condition update body).run f n) := by
  simp only [Stmt.functions, Stmt.writes, Stmt.inner, List.forall_mem_append] at hp hw hv
  have h : StmtCongruence P W V .stay (fun x _ => S.Keeps (S.Admitted P W V) x) := stmtCongruence
  have hc : SameCalls .stay (fun x _ => S.Keeps (S.Admitted P W V) x) f f :=
    sameCalls hf stable_admitted
  have hl (loops : List Stmt) : ∀ l ∈ loops,
      n = n ∧ Looping .stay (fun x _ => S.Keeps (S.Admitted P W V) x) :=
    fun _ _ => ⟨rfl, looping⟩
  have hinit : S.Keeps (S.Admitted P W V) (Stmt.runIfAny f n init) :=
    Stmt.runIfAny_congr h hc init hp.1.1.1 hw.1.1.1 hv.1 (hl _)
  have hbody : S.Keeps (S.Admitted P W V) (body.run f n) :=
    Stmt.run_congr h hc body hp.2 hw.2 hv.2 (hl _)
  refine keeps_inBlock (hinit.bind stable_admitted fun _ => ?_)
  exact @Sequential.forLoop _ sequential _ _ _ _
    (Expr.evalIfAny_congr h.toExprCongruence hc condition hp.1.1.2 hw.1.1.2)
    (Expr.evalIfAny_congr h.toExprCongruence hc update hp.1.2 hw.1.2) _ (body.run f n)
    (keeps_loopBody _ hbody) n

theorem keeps_attempt (body : Block) (handler : Option Handler) (finalizer : Option Block)
    (o : Origin) (hp : ∀ k ∈ (Stmt.attempt o body handler finalizer).functions, P k)
    (hw : ∀ x ∈ (Stmt.attempt o body handler finalizer).writes, W x)
    (hv : ∀ t ∈ (Stmt.attempt o body handler finalizer).inner, ∀ x ∈ t.hoistedNames, V x) :
    S.Keeps (S.Licensed P W V) ((Stmt.attempt o body handler finalizer).run f n) := by
  simp only [Stmt.functions, Stmt.writes, Stmt.inner, List.forall_mem_append] at hp hw hv
  have hbody : S.Keeps (S.Licensed P W V) (inBlock (body.runBody f n)) :=
    keeps_block hf body hp.1.1 hw.1.1 hv.1.1
  have hcaught : S.Keeps (S.Licensed P W V)
      (catching (inBlock (body.runBody f n)) (Handler.runIfAny f n handler)) := by
    cases handler with
    | none =>
      rw [Handler.runIfAny, catching_none]
      exact hbody
    | some handler =>
      obtain ⟨param, handle⟩ := handler
      refine keeps_catching stable_licensed hbody fun v => keeps_handling param v ?_
      exact Block.runBody_congr stmtCongruence (sameCalls hf stable_admitted) handle hp.1.2 hw.1.2
        hv.1.2 fun _ _ => ⟨(rfl : n = n), looping⟩
  cases finalizer with
  | none => exact hcaught
  | some last => exact keeps_finalizing stable_licensed hcaught (keeps_block hf last hp.2 hw.2 hv.2)

end Statements

end Seal

section Statements

open Seal

variable {S : Seal} {P : Function → Prop} {W V : String → Prop} {f : Invoke} {n : Nat}
variable (hf : ∀ id receiver args frame, S.Keeps (fun _ => True) (f id receiver args frame))

include hf

mutual

theorem Stmt.keeps_run (s : Stmt) (hs : ∀ name ∈ s.declaresHere, name ∉ S.names)
    (hp : ∀ k ∈ s.functions, P k) (hw : ∀ x ∈ s.writes, W x)
    (hv : ∀ t ∈ s.inner, ∀ x ∈ t.hoistedNames, V x) : S.Keeps (S.Licensed P W V) (s.run f n) := by
  have hexpr (e : Expr) (hp : ∀ k ∈ e.functions, P k) (hw : ∀ x ∈ e.writes, W x) :
      S.Keeps (S.Licensed P W V) (e.eval f) := keeps_expression hf e hp hw
  match s with
  | .expression _ e =>
    exact (hexpr e hp hw).bind stable_licensed fun _ => compositional_licensed.pure _
  | .declaration _ kind ds =>
    have hds : S.Keeps (S.Licensed P W V) (Declarator.runAll f kind ds) :=
      keeps_declaration hf kind ds hs hp hw
    exact hds.bind stable_licensed fun _ => compositional_licensed.pure _
  | .function _ name k =>
    intro m hm h
    have hclosure : S.KeepsAt m (newFunction k m.current) := by
      refine keepsAt_newFunction hm hm.wellScoped.current fun hinside => ?_
      exact h.functions hinside k (hp k (by simp [Stmt.functions]))
    have hname := hs _ (List.mem_singleton_self _)
    refine .of_reading (hclosure.bind fun v m' _ hk => ?_)
    exact (keepsAt_declare hk.sealed (fun _ => hname) (fun _ _ => hname) v).map _
  | .block _ body => exact keeps_block hf body hp hw hv
  | .branch _ condition yes no =>
    simp only [Stmt.declaresHere, Stmt.functions, Stmt.writes, Stmt.inner,
      List.forall_mem_append] at hs hp hw hv
    refine (hexpr condition hp.1.1 hw.1.1).bind stable_licensed fun v => ?_
    split
    · exact Stmt.keeps_run yes hs.1 hp.1.2 hw.1.2 (List.forall_mem_cons.mp hv.1).2
    · exact Stmt.keeps_runIfAny no hs.2 hp.2 hw.2 hv.2
  | .whileLoop _ condition body =>
    simp only [Stmt.functions, Stmt.writes, List.forall_mem_append] at hp hw
    have hbody : S.Keeps (S.Licensed P W V) (body.run f n) :=
      Stmt.keeps_run body hs hp.2 hw.2 (List.forall_mem_cons.mp hv).2
    exact @Sequential.whileLoop _ sequential_licensed _ (condition.eval f) _ (body.run f n)
      (hexpr condition hp.1 hw.1) hbody n
  | .forLoop o init condition update body =>
    exact keeps_forLoop hf o init condition update body hp hw hv
  | .switch _ discriminant cases =>
    simp only [Stmt.functions, Stmt.writes, List.forall_mem_append] at hp hw
    refine (hexpr discriminant hp.1 hw.1).bind stable_licensed fun v => keeps_inBlock ?_
    exact SwitchCase.runArms_congr stmtCongruence (sameCalls hf stable_admitted) v false cases hp.2
      hw.2 hv fun _ _ => ⟨(rfl : n = n), looping⟩
  | .attempt o body handler finalizer => exact keeps_attempt hf body handler finalizer o hp hw hv
  | .breakLoop _ | .continueLoop _ | .empty _ | .giveBack _ none =>
    exact compositional_licensed.pure _
  | .raise _ e =>
    exact (hexpr e hp hw).bind stable_licensed fun _ _ hm _ => keepsAt_throw hm _
  | .giveBack _ (some e) =>
    exact (hexpr e hp hw).bind stable_licensed fun _ => compositional_licensed.pure _
termination_by structural s

theorem Stmt.keeps_runIfAny (s : Option Stmt)
    (hs : ∀ name ∈ Stmt.declaresHereIfAny s, name ∉ S.names)
    (hp : ∀ k ∈ Stmt.functionsIfAny s, P k) (hw : ∀ x ∈ Stmt.writesIfAny s, W x)
    (hv : ∀ t ∈ Stmt.partsIfAny s, ∀ x ∈ t.hoistedNames, V x) :
    S.Keeps (S.Licensed P W V) (Stmt.runIfAny f n s) := by
  match s with
  | none => exact compositional_licensed.pure _
  | some s => exact Stmt.keeps_run s hs hp hw (List.forall_mem_cons.mp hv).2
termination_by structural s

end

theorem Stmt.keeps_runAll (last : Option Value) (ss : List Stmt)
    (hss : ∀ s ∈ ss, ∀ name ∈ s.declaresHere, name ∉ S.names)
    (hp : ∀ k ∈ Stmt.functionsOf ss, P k) (hw : ∀ x ∈ Stmt.writesOf ss, W x)
    (hv : ∀ t ∈ Stmt.partsOf ss, ∀ x ∈ t.hoistedNames, V x) :
    S.Keeps (S.Licensed P W V) (Stmt.runAll f n last ss) := by
  induction ss generalizing last with
  | nil => exact compositional_licensed.pure _
  | cons s ss ih =>
    simp only [Stmt.functionsOf, Stmt.writesOf, Stmt.partsOf, List.forall_mem_append,
      List.forall_mem_cons] at hss hp hw hv
    refine (Stmt.keeps_run hf s hss.1 hp.1 hw.1 hv.1.2).bind stable_licensed fun c => ?_
    cases c with
    | normal value =>
      cases value with
      | none => exact ih last hss.2 hp.2 hw.2 hv.2
      | some v => exact ih (some v) hss.2 hp.2 hw.2 hv.2
    | leave | skip | giveBack => exact compositional_licensed.pure _

end Statements

namespace Machine.InDeadZone

variable {name : String} {outer : Option ScopeId} {m m' : Machine}

def sealOf (name : String) (outer : Option ScopeId) (id : ScopeId) : Seal where
  scope := id
  names := [name]
  admits f := outer = none → f.Spares [name]
  inner hf g hg hroot := by
    cases hf hroot with
    | intro _ hinner => exact hinner g hg

theorem misses (h : m.InDeadZone name outer) (houter : outer ≠ none) {n : String}
    (hn : n ∈ (sealOf name outer m.current).names) :
    (sealOf name outer m.current).Misses n m.scopes where
  unbound := by
    cases List.mem_singleton.mp hn
    exact h.unbound
  parent := by
    show (m.scopes.scope m.current).parent ≠ none
    rwa [h.parent]

theorem sealed (h : m.InDeadZone name outer) : (sealOf name outer m.current).Sealed m where
  wellScoped := h.wellScoped
  lt_size := h.wellScoped.current
  closures id f home hkind hinside hroot := h.closures hroot id f home hkind hinside
  spares f hf n hwrites hn := by
    refine h.misses (fun hroot => ?_) hn
    cases hf hroot with
    | intro hbody _ => exact hbody n hwrites hn

theorem licensed (h : m.InDeadZone name outer) {P : Function → Prop} {W V : String → Prop}
    (hp : outer = none → ∀ k, P k → k.Spares [name]) (hw : outer = none → ¬W name)
    (hv : (m.scopes.scope m.current).holdsVars = true → ¬V name) :
    (sealOf name outer m.current).Licensed P W V m := by
  refine ⟨fun _ k hk hroot => hp hroot k hk, fun _ n hn hwrites => ?_, fun hvars n hn => ?_⟩
  · refine h.misses (fun hroot => hw hroot ?_) hn
    cases List.mem_singleton.mp hn
    exact hwrites
  · cases List.mem_singleton.mp hn
    exact hv (ScopeTree.of_climb_eq_some hvars)

theorem kept (h : m.InDeadZone name outer) (hk : (sealOf name outer m.current).Kept m m') :
    m'.InDeadZone name outer := by
  have hlt := h.wellScoped.current
  refine ⟨hk.sealed.wellScoped, ?_, ?_, fun hroot id f home hkind hinside => ?_⟩
  · rw [hk.current, hk.grows.parent _ hlt, h.parent]
  · rw [hk.current, ← h.unbound]
    exact hk.bindings name (List.mem_singleton_self _)
  · rw [hk.current] at hinside
    exact hk.sealed.closures id f home hkind hinside hroot

theorem of_open (hm : m.WellScoped) (name : String) :
    InDeadZone name (some m.current) { openBlock m with current := m.scopes.size } := by
  have hnew := scope_openBlock m
  refine ⟨(hm.addScope rfl hm.current).enter (by simp [ScopeTree.add]), ?_, ?_, nofun⟩
  · exact congrArg Scope.parent hnew
  · rw [ScopeTree.getLocal?, hnew]
    rfl

theorem expression (h : m.InDeadZone name outer) (e : Expr)
    (he : outer = none → name ∉ e.writes ∧ ∀ k ∈ e.functions, k.Spares [name]) (fuel : Nat) :
    (final (e.eval (invoke fuel) m)).InDeadZone name outer := by
  rw [← monitored_never fuel]
  have hlicensed := h.licensed (P := (· ∈ e.functions)) (W := (· ∈ e.writes)) (V := fun _ => False)
    (fun hroot => (he hroot).2) (fun hroot => (he hroot).1) fun _ => id
  exact h.kept (Seal.keeps_expression (Seal.keeps_monitored _ fuel) e (fun _ hk => hk)
    (fun _ hx => hx) m h.sealed hlicensed)

theorem statements (h : m.InDeadZone name outer) {ss : List Stmt}
    (hss : ∀ s ∈ ss, name ∉ s.declaresHere)
    (hvars : (m.scopes.scope m.current).holdsVars = true →
      ∀ t ∈ Stmt.partsOf ss, name ∉ t.hoistedNames)
    (hroot : outer = none → name ∉ Stmt.writesOf ss ∧ ∀ k ∈ Stmt.functionsOf ss, k.Spares [name])
    (fuel n : Nat) : (final (Stmt.runAll (invoke fuel) n none ss m)).InDeadZone name outer := by
  rw [← monitored_never fuel]
  have hlicensed := h.licensed (P := (· ∈ Stmt.functionsOf ss)) (W := (· ∈ Stmt.writesOf ss))
    (V := fun x => ∃ t ∈ Stmt.partsOf ss, x ∈ t.hoistedNames) (fun hnone => (hroot hnone).2)
    (fun hnone => (hroot hnone).1) fun hholds ⟨t, ht, hname⟩ => hvars hholds t ht hname
  refine h.kept (Stmt.keeps_runAll (Seal.keeps_monitored _ fuel) none ss ?_ (fun _ hk => hk)
    (fun _ hx => hx) (fun t ht x hx => ⟨t, ht, hx⟩) m h.sealed hlicensed)
  intro s hs n hn hname
  cases List.mem_singleton.mp hname
  exact hss s hs hn

theorem eval_identifier (h : m.InDeadZone name outer) (f : Invoke) (o : Origin) :
    (Expr.identifier o name).eval f m =
      match outer.bind (m.scopes.lookup? · name) with
      | some v => .ok v m
      | none => throwNamed .referenceError (name ++ " is not defined") m := by
  have hlookup : m.scopes.lookup? m.current name = outer.bind (m.scopes.lookup? · name) := by
    cases outer with
    | none => exact (ScopeTree.Unbound.top h.unbound h.parent).lookup? h.wellScoped.ordered
    | some parent =>
      exact ScopeTree.lookup?_of_parent h.wellScoped.ordered h.unbound h.parent
  simp only [Expr.eval, lookup, reading, bind, EStateM.bind, ScopeTree.get, hlookup]
  cases outer.bind (m.scopes.lookup? · name) with
  | some v => rfl
  | none => rfl

end Machine.InDeadZone

/-- Until a block has run its declaration of a name, the name means what it means outside the block,
wherever in the block it is read. It is an error only if it is not bound outside. The same holds in
a body whose hoisting has not bound the name; in a program it is then an error, unless the program
assigns to the name. -/
theorem names_mean_outer_until_declared {m : Machine} (hm : m.WellScoped) {name : String}
    {before : List Stmt} (hbefore : ∀ s ∈ before, name ∉ s.declaresHere) (fuel n : Nat) :
    Machine.InDeadZone name (some m.current) (final (Stmt.runAll (invoke fuel) n none before
      { openBlock m with current := m.scopes.size })) ∧
    (∀ rest m' outer, m.AtVars → Stmt.hoistAll (before ++ rest) m = .ok () m' →
      Machine.InDeadZone name outer m' →
      (outer = none → name ∉ Stmt.writesOf before ∧
        ∀ k ∈ Stmt.functionsOf before, k.Spares [name]) →
      Machine.InDeadZone name outer (final (Stmt.runAll (invoke fuel) n none before m'))) ∧
    ∀ outer m', Machine.InDeadZone name outer m' →
      (∀ e : Expr, (outer = none → name ∉ e.writes ∧ ∀ k ∈ e.functions, k.Spares [name]) →
        Machine.InDeadZone name outer (final (e.eval (invoke fuel) m'))) ∧
      ∀ o, (Expr.identifier o name).eval (invoke fuel) m' =
        match outer.bind (m'.scopes.lookup? · name) with
        | some v => .ok v m'
        | none => throwNamed .referenceError (name ++ " is not defined") m' := by
  have hopened := Machine.InDeadZone.of_open hm name
  refine ⟨hopened.statements hbefore (fun hvars => ?_) nofun fuel n, ?_, fun outer m' h => ?_⟩
  · change ((openBlock m).scopes.scope m.scopes.size).holdsVars = true at hvars
    rw [scope_openBlock] at hvars
    cases hvars
  · intro rest m' outer hvars hhoist h hroot
    refine h.statements hbefore (fun _ t ht hname => ?_) hroot fuel n
    -- hoisting would have bound the name
    have hhoists := Stmt.hoistedBy_hoistAll (before ++ rest) m m' hvars hhoist
    have hpart : t ∈ Stmt.partsOf (before ++ rest) := by
      rw [Stmt.partsOf_append]
      exact List.mem_append_left _ ht
    have hbound := (hhoists.isSome_iff name).mpr (.inr (Stmt.mem_names_of_hoisted hpart hname))
    rw [← hhoists.sameStacks.current, h.unbound] at hbound
    cases hbound
  · exact ⟨fun e he => h.expression e he fuel, fun o => h.eval_identifier _ o⟩

/-- An inner name is read before its declaration, and there is an outer one. -/
theorem names_mean_outer_until_declared_shadowing :
    let read : Stmt := .expression default (.identifier default "x")
    let x : Binding := ⟨.bool true, .let_⟩
    let m : Machine := ⟨#[], #[Scope.root.bind "x" x], 0, [], [], none⟩
    let reached := final (Stmt.runAll (invoke 1) 1 none [read] { openBlock m with current := 1 })
    (Expr.identifier default "x").eval (invoke 1) reached = .ok (.bool true) reached := by
  intro read x m reached
  have hm : m.WellScoped := by
    refine ⟨fun id parent hparent => ?_, Nat.zero_lt_one, fun id f home hkind => ?_⟩
    · cases id <;> cases hparent
    · cases hkind
  have hbefore : ∀ s ∈ [read], "x" ∉ s.declaresHere := by
    intro s hs
    cases List.mem_singleton.mp hs
    exact nofun
  obtain ⟨hreached, -, hread⟩ := names_mean_outer_until_declared hm hbefore 1 1
  exact (hread _ reached hreached).2 default

/-- A block reads a name that it declares afterwards, and gets the value of the outer one. -/
theorem dead_zone_reads_outer_binding :
    let declares (value : Bool) : Stmt :=
      .declaration default .let_ [.mk ⟨"x", default⟩ (some (.bool default value))]
    let result : Stmt := .declaration default .var [.mk ⟨"r", default⟩ none]
    let read : Stmt := .expression default
      (.assign default (.name ⟨"r", default⟩) (.identifier default "x"))
    let program : Block := .mk default [declares true, result,
      .block default (.mk default [read, declares false]),
      .expression default (.identifier default "r")]
    ∃ m', runProgram 1 program ⟨#[], #[Scope.root], 0, [], [], none⟩ = .ok (.bool true) m' :=
  ⟨_, rfl⟩

end ScriptEngine
