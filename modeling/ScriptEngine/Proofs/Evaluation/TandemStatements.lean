import ScriptEngine.Proofs.Evaluation.Monitor
import ScriptEngine.Proofs.Evaluation.TandemExpressions

/-!
# Statements and calls in tandem

Hoisting goes in tandem wherever it is done, statements in scopes that bind the same, as they may
declare names there. Calls of closures follow, and by induction on the fuel the calls of the
evaluator go in tandem with themselves.
-/

namespace ScriptEngine

open Eval

namespace Tandem

def completion (S : Tandem) (w : S.World) : Completion → Prop
  | .normal (some v) | .giveBack v => S.sound w v
  | .normal none | .leave | .skip => True

theorem fails_outOfFuel {S : Tandem} (w : S.World) : S.fails w .outOfFuel := by
  intro t ht
  cases ht

namespace Lawful

variable {S : Tandem} {w : S.World} {f g : Invoke}

section Parts

variable (L : S.Lawful)

include L

theorem completion_mono {w₁ : S.World} (h : S.le w w₁) {c : Completion} (hc : S.completion w c) :
    S.completion w₁ c := by
  match c with
  | .normal (some v) => exact L.sound_mono h hc
  | .giveBack v => exact L.sound_mono h hc
  | .normal none | .leave | .skip => trivial

theorem undefined : S.Runs w S.completion (Pure.pure .undefined) (Pure.pure .undefined) :=
  L.pure (show S.sound w .undefined from L.primitive rfl)

theorem outOfFuel {α : Type} {A : S.World → α → Prop} :
    S.Runs w A (MonadExcept.throw .outOfFuel) (MonadExcept.throw .outOfFuel) :=
  L.throw (fails_outOfFuel w)

theorem declareFunction (name : String) {k : Function} (hk : ∀ n ∈ k.entries, S.admits n) :
    S.Runs w S.any (do Eval.declare name (← Eval.newFunction k (← Eval.currentScope)) .var)
      (do Eval.declare name (← Eval.newFunction k (← Eval.currentScope)) .var) :=
  L.currentScope fun _ _ hi => L.bind (L.newFunction hk hi) fun _ _ _ hv => L.declareAsVar name hv

theorem catching {x y : Eval Completion} {h h' : Value → Eval Completion}
    (hx : S.RunsHome w S.completion x y)
    (hh : ∀ w₁ v, S.le w w₁ → S.sound w₁ v → S.RunsHome w₁ S.completion (h v) (h' v)) :
    S.RunsHome w S.completion (Eval.catching x (some h)) (Eval.catching y (some h')) := by
  intro m m' hm hown
  have hends := hx m m' hm hown
  simp only [Eval.catching, outcome, Bind.bind, EStateM.bind]
  generalize x m = r, y m' = r' at hends
  cases hends with
  | ok hafter hcompletion => exact .ok hafter hcompletion
  | @error w₁ n n' e hafter he =>
    cases e with
    | thrown t =>
      have hown₁ : S.own w₁ n.current n'.current := by
        rw [hafter.current, hafter.current']
        exact L.own_mono hafter.le hown
      exact .trans L hafter (hh w₁ t.value hafter.le (he t rfl) n n' hafter.related hown₁)
    | internal | outOfFuel => exact .error hafter he

theorem finalizing {x y last last' : Eval Completion} (hx : S.RunsHome w S.completion x y)
    (hlast : ∀ w₁, S.le w w₁ → S.RunsHome w₁ S.completion last last') :
    S.RunsHome w S.completion (Eval.finalizing x (some last)) (Eval.finalizing y (some last')) := by
  intro m m' hm hown
  have hends := hx m m' hm hown
  -- what comes after the action, if it has not run out of fuel
  have hclosing {w₁ : S.World} {n n' : Machine} (h : S.After w m m' w₁ n n')
      {ended : Except Failure Completion}
      (hended : ∀ w₂, S.le w₁ w₂ → S.Runs w₂ S.completion (resume ended) (resume ended)) :
      S.Ends w m m' S.completion ((last >>= closing ended) n) ((last' >>= closing ended) n') := by
    have hown₁ : S.own w₁ n.current n'.current := by
      rw [h.current, h.current']
      exact L.own_mono h.le hown
    refine .trans L h (.bind L (hlast w₁ h.le n n' h.related hown₁) ?_)
    intro w₂ l l' c h₂ hcompletion
    cases c with
    | normal => exact hended w₂ h₂.le l l' h₂.related
    | leave | skip | giveBack => exact L.pure hcompletion l l' h₂.related
  generalize hr : x m = r, hr' : y m' = r' at hends
  cases hends with
  | ok h hcompletion =>
    rw [finalizing_of_ok hr, finalizing_of_ok hr']
    exact hclosing h fun w₂ h₂ => L.pure (L.completion_mono h₂ hcompletion)
  | @error w₁ n n' e h he =>
    by_cases hfuel : e = .outOfFuel
    · subst hfuel
      rw [finalizing_of_outOfFuel hr, finalizing_of_outOfFuel hr']
      exact .error h he
    · rw [finalizing_of_error hfuel hr, finalizing_of_error hfuel hr']
      exact hclosing h fun w₂ h₂ => L.throw fun t ht => L.sound_mono h₂ (he t ht)

theorem handling (param : Option Ident) {v : Value} (hv : S.sound w v) {x y : Eval Completion}
    (hx : ∀ w₁, S.le w w₁ → S.RunsHome w₁ S.completion x y) :
    S.Runs w S.completion (Eval.handling param x v) (Eval.handling param y v) := by
  refine L.currentScope fun i i' hi => L.addBlock hi fun w₁ j j' h₁ hj => ?_
  have hblock (w₂ : S.World) (h₂ : S.le w₁ w₂) :
      S.Runs w₂ S.completion (Eval.inScope j (Eval.inBlock x)) (Eval.inScope j' (Eval.inBlock y)) :=
    L.inScope (L.own_mono h₂ hj)
      (L.inBlock fun w₃ h₃ => hx w₃ (L.trans h₁ (L.trans h₂ h₃))).home
  cases param with
  | none => exact hblock w₁ (L.refl w₁)
  | some p =>
    refine L.bind (L.declareLocal hj p.name (L.sound_mono h₁ hv) .var) fun w₂ _ h₂ _ => ?_
    exact hblock w₂ h₂

theorem whileLoop {condition condition' : Eval Value} {body body' : Eval Completion}
    (hcondition : ∀ w₁, S.le w w₁ → S.RunsHome w₁ S.sound condition condition')
    (hbody : ∀ w₁, S.le w w₁ → S.RunsHome w₁ S.completion body body') (n : Nat) :
    S.RunsHome w S.completion (Eval.whileLoop condition body n)
      (Eval.whileLoop condition' body' n) := by
  induction n generalizing w with
  | zero => exact L.outOfFuel.home
  | succ n ih =>
    refine L.bindHome (hcondition w (L.refl w)) fun w₁ v h₁ _ => ?_
    split
    · refine L.bindHome (hbody w₁ h₁) fun w₂ c h₂ hcompletion => ?_
      have hle := L.trans h₁ h₂
      have hrest := ih (fun w₃ h₃ => hcondition w₃ (L.trans hle h₃))
        fun w₃ h₃ => hbody w₃ (L.trans hle h₃)
      cases c with
      | leave => exact L.undefined.home
      | giveBack => exact (L.pure hcompletion).home
      | normal | skip => exact hrest
    · exact L.undefined.home

theorem forLoop {condition update : Option Expr}
    (hcondition : ∀ e ∈ condition, ∀ w₁, S.Runs w₁ S.sound (e.eval f) (e.eval g))
    (hupdate : ∀ e ∈ update, ∀ w₁, S.Runs w₁ S.sound (e.eval f) (e.eval g))
    {body body' : Eval Completion}
    (hbody : ∀ w₁, S.le w w₁ → S.RunsHome w₁ S.completion body body') (n : Nat) :
    S.RunsHome w S.completion
      (Eval.forLoop (Expr.evalIfAny f condition) (Expr.evalIfAny f update) body n)
      (Eval.forLoop (Expr.evalIfAny g condition) (Expr.evalIfAny g update) body' n) := by
  induction n generalizing w with
  | zero => exact L.outOfFuel.home
  | succ n ih =>
    have hholds : S.Runs w S.any (Eval.holds (Expr.evalIfAny f condition))
        (Eval.holds (Expr.evalIfAny g condition)) := by
      cases condition with
      | none => exact L.pure trivial
      | some e => exact L.bind (hcondition e rfl w) fun _ _ _ _ => L.pure trivial
    refine L.bindHome hholds.home fun w₁ goes h₁ _ => ?_
    split
    · refine L.bindHome (hbody w₁ h₁) fun w₂ c h₂ hcompletion => ?_
      have hrest (w₃ : S.World) (h₃ : S.le w₂ w₃) :=
        ih fun w₄ h₄ => hbody w₄ (L.trans h₁ (L.trans h₂ (L.trans h₃ h₄)))
      -- what a round does after its body, unless the loop is left
      cases c with
      | leave => exact L.undefined.home
      | giveBack => exact (L.pure hcompletion).home
      | normal | skip =>
        cases update with
        | none => exact hrest w₂ (L.refl w₂)
        | some e => exact L.bindHome (hupdate e rfl w₂).home fun w₃ _ h₃ _ => hrest w₃ h₃
    · exact L.undefined.home

theorem copyInto {source source' target target' : ScopeId} (hsource : S.own w source source')
    (htarget : S.own w target target') (names : List String) :
    S.Runs w S.any (Eval.copyInto source target names) (Eval.copyInto source' target' names) := by
  induction names generalizing w with
  | nil => exact L.pure trivial
  | cons name names ih =>
    refine Runs.ofReading fun m m' hm => ?_
    rw [L.getLocal? hm hsource]
    cases hb : m.scopes.getLocal? source name with
    | none => exact ih hsource htarget
    | some b =>
      refine L.bind (L.declareLocal htarget name (L.bound hm hb) b.kind) fun w₁ _ h₁ _ => ?_
      exact ih (L.own_mono h₁ hsource) (L.own_mono h₁ htarget)

theorem copyBack {source source' target target' : ScopeId} (hsource : S.own w source source')
    (htarget : S.own w target target') (names : List String) {m m' : Machine}
    (hm : S.related w m m') :
    S.After w m m' w (Eval.copyBack source target names m)
      (Eval.copyBack source' target' names m') := by
  induction names generalizing m m' with
  | nil => exact L.after_refl hm
  | cons name names ih =>
    simp only [Eval.copyBack, List.foldl_cons, L.getLocal? hm hsource]
    cases hb : m.scopes.getLocal? source name with
    | none => exact ih hm
    | some b =>
      have hoverwrite : S.related w
          { m with scopes := m.scopes.overwriteLocal target name b.value }
          { m' with scopes := m'.scopes.overwriteLocal target' name b.value } := by
        rw [ScopeTree.overwriteLocal_eq, ScopeTree.overwriteLocal_eq, L.getLocal? hm htarget]
        cases m.scopes.getLocal? target name with
        | none => exact hm
        | some old =>
          have hvalue : S.sound w b.value := L.bound hm hb
          exact L.put hm htarget name hvalue
      exact .trans L ⟨L.refl w, hoverwrite, rfl, rfl⟩ (ih hoverwrite)

theorem iteration (names : List String) {body body' : Eval Completion}
    (hbody : ∀ w₁, S.le w w₁ → S.RunsHome w₁ S.completion body body') :
    S.RunsHome w S.completion (Eval.iteration names body) (Eval.iteration names body') := by
  intro m m' hm hown
  have hrun : S.Runs w S.completion
      (Eval.addBlock m.current >>= fun scope => Eval.copyInto m.current scope names >>= fun _ =>
        Eval.always (Eval.inScope scope body) (Eval.copyBack scope m.current names))
      (Eval.addBlock m'.current >>= fun scope => Eval.copyInto m'.current scope names >>= fun _ =>
        Eval.always (Eval.inScope scope body') (Eval.copyBack scope m'.current names)) := by
    refine L.addBlock (L.scope_of_own hown) fun w₁ j j' h₁ hj => ?_
    have hown₁ := L.own_mono h₁ hown
    refine L.bind (L.copyInto hown₁ hj names) fun w₂ _ h₂ _ => ?_
    intro n n' hn
    have hinner := L.inScope (L.own_mono h₂ hj) (hbody w₂ (L.trans h₁ h₂)) n n' hn
    refine .always hinner fun w₃ l l' h₃ => .trans L h₃ ?_
    have hle := L.trans h₂ h₃.le
    exact L.copyBack (L.own_mono hle hj) (L.own_mono hle hown₁) names h₃.related
  exact hrun m m' hm

theorem loopBody (names : List String) {body body' : Eval Completion}
    (hbody : ∀ w₁, S.le w w₁ → S.RunsHome w₁ S.completion body body') :
    S.RunsHome w S.completion (Eval.loopBody names body) (Eval.loopBody names body') := by
  unfold Eval.loopBody
  split
  · exact hbody w (L.refl w)
  · exact L.iteration names hbody

theorem hoistDeclarators (ds : List Declarator) (w : S.World) :
    S.Runs w S.any (Declarator.hoistAll ds) (Declarator.hoistAll ds) := by
  induction ds generalizing w with
  | nil => exact L.pure trivial
  | cons d ds ih =>
    obtain ⟨name, init⟩ := d
    exact L.bind (L.declareVar name.name) fun w₁ _ _ _ => ih w₁

end Parts

mutual

theorem hoist (L : S.Lawful) (s : Stmt) (he : ∀ n ∈ s.entries, S.admits n) (w : S.World) :
    S.Runs w S.any s.hoist s.hoist := by
  match s with
  | .function _ name k => exact L.declareFunction name.name he
  | .declaration _ kind ds =>
    cases kind with
    | var => exact L.hoistDeclarators ds w
    | let_ | const => exact L.pure trivial
  | .block _ (.mk _ statements) => exact L.hoistAll statements he w
  | .branch _ _ yes no =>
    simp only [Stmt.entries, List.forall_mem_append] at he
    exact L.bind (L.hoist yes he.1.2 w) fun w₁ _ _ _ => L.hoistIfAny no he.2 w₁
  | .whileLoop _ _ body =>
    simp only [Stmt.entries, List.forall_mem_append] at he
    exact L.hoist body he.2 w
  | .forLoop _ init _ _ body =>
    simp only [Stmt.entries, List.forall_mem_append] at he
    exact L.bind (L.hoistIfAny init he.1.1.1 w) fun w₁ _ _ _ => L.hoist body he.2 w₁
  | .switch _ _ cases =>
    simp only [Stmt.entries, List.forall_mem_append] at he
    exact L.hoistCases cases he.2 w
  | .attempt _ (.mk _ statements) handler finalizer =>
    simp only [Stmt.entries, Block.entries, List.forall_mem_append] at he
    refine L.bind (L.hoistAll statements he.1.1 w) fun w₁ _ _ _ => ?_
    refine L.bind (L.hoistHandler handler he.1.2 w₁) fun w₂ _ _ _ => ?_
    exact L.hoistBlock finalizer he.2 w₂
  | .expression .. | .breakLoop _ | .continueLoop _ | .raise .. | .giveBack .. | .empty _ =>
    exact L.pure trivial
termination_by structural s

theorem hoistAll (L : S.Lawful) (ss : List Stmt) (he : ∀ n ∈ Stmt.entriesOf ss, S.admits n)
    (w : S.World) : S.Runs w S.any (Stmt.hoistAll ss) (Stmt.hoistAll ss) := by
  match ss with
  | [] => exact L.pure trivial
  | s :: ss =>
    simp only [Stmt.entriesOf, List.forall_mem_append] at he
    exact L.bind (L.hoist s he.1 w) fun w₁ _ _ _ => L.hoistAll ss he.2 w₁
termination_by structural ss

theorem hoistIfAny (L : S.Lawful) (s : Option Stmt) (he : ∀ n ∈ Stmt.entriesIfAny s, S.admits n)
    (w : S.World) : S.Runs w S.any (Stmt.hoistIfAny s) (Stmt.hoistIfAny s) := by
  match s with
  | none => exact L.pure trivial
  | some s => exact L.hoist s he w
termination_by structural s

theorem hoistCases (L : S.Lawful) (cases : List SwitchCase)
    (he : ∀ n ∈ SwitchCase.entriesOf cases, S.admits n) (w : S.World) :
    S.Runs w S.any (SwitchCase.hoistAll cases) (SwitchCase.hoistAll cases) := by
  match cases with
  | [] => exact L.pure trivial
  | .mk _ body :: cases =>
    simp only [SwitchCase.entriesOf, List.forall_mem_append] at he
    exact L.bind (L.hoistAll body he.1.2 w) fun w₁ _ _ _ => L.hoistCases cases he.2 w₁
termination_by structural cases

theorem hoistHandler (L : S.Lawful) (handler : Option Handler)
    (he : ∀ n ∈ Handler.entriesIfAny handler, S.admits n) (w : S.World) :
    S.Runs w S.any (Handler.hoistIfAny handler) (Handler.hoistIfAny handler) := by
  match handler with
  | none => exact L.pure trivial
  | some (.mk _ (.mk _ statements)) => exact L.hoistAll statements he w
termination_by structural handler

theorem hoistBlock (L : S.Lawful) (b : Option Block) (he : ∀ n ∈ Block.entriesIfAny b, S.admits n)
    (w : S.World) : S.Runs w S.any (Block.hoistIfAny b) (Block.hoistIfAny b) := by
  match b with
  | none => exact L.pure trivial
  | some (.mk _ statements) => exact L.hoistAll statements he w
termination_by structural b

end

theorem runDeclarators (L : S.Lawful) (hc : S.Calls f g) (kind : BindingKind) (ds : List Declarator)
    (he : ∀ n ∈ Declarator.entriesOf ds, S.admits n) (w : S.World) :
    S.RunsHome w S.any (Declarator.runAll f kind ds) (Declarator.runAll g kind ds) := by
  induction ds generalizing w with
  | nil => exact (L.pure trivial).home
  | cons d ds ih =>
    obtain ⟨name, init⟩ := d
    simp only [Declarator.entriesOf, List.forall_mem_append] at he
    refine L.bindHome (A := S.any) ?_ fun w₁ _ _ _ => ih he.2 w₁
    cases init with
    | none =>
      cases kind with
      | var => exact (L.declareVar name.name).home
      | const => exact (L.throwNamed _ _).home
      | let_ => exact L.declare name.name (L.primitive rfl) .let_
    | some e =>
      have hvalue := (L.eval hc e he.1 w).home
      cases kind with
      | var => exact L.bindHome hvalue fun w₁ v _ hv => (L.assign name.name hv).home
      | let_ | const => exact L.bindHome hvalue fun w₁ v _ hv => L.declare name.name hv _

theorem reached (L : S.Lawful) (hc : S.Calls f g) (v : Value) (matched : Bool) (test : Option Expr)
    (he : ∀ n ∈ Expr.entriesIfAny test, S.admits n) (w : S.World) :
    S.RunsHome w S.any (SwitchCase.reached f v matched test)
      (SwitchCase.reached g v matched test) := by
  cases matched with
  | true => exact (L.pure trivial).home
  | false =>
    cases test with
    | none => exact (L.pure trivial).home
    | some test => exact L.bindHome (L.eval hc test he w).home fun _ _ _ _ => (L.pure trivial).home

mutual

theorem run (L : S.Lawful) (hc : S.Calls f g) (fuel : Nat) (s : Stmt)
    (he : ∀ n ∈ s.entries, S.admits n) (w : S.World) :
    S.RunsHome w S.completion (s.run f fuel) (s.run g fuel) := by
  match s with
  | .expression _ e =>
    exact L.bindHome (L.eval hc e he w).home fun w₁ v _ hv => Runs.home (L.pure hv)
  | .declaration _ kind ds =>
    exact L.bindHome (L.runDeclarators hc kind ds he w) fun w₁ _ _ _ => L.undefined.home
  | .function _ name k =>
    refine (L.currentScope fun i i' hi => ?_).home
    refine L.bind (L.newFunction he hi) fun w₁ v _ hv => ?_
    exact L.bind (L.declareAsVar name.name hv) fun w₂ _ _ _ => L.undefined
  | .block _ body => exact (L.inBlock fun w₁ _ => L.runBlock hc fuel body he w₁).home
  | .branch _ condition yes no =>
    simp only [Stmt.entries, List.forall_mem_append] at he
    refine L.bindHome (L.eval hc condition he.1.1 w).home fun w₁ v _ _ => ?_
    split
    · exact L.run hc fuel yes he.1.2 w₁
    · exact L.runIfAny hc fuel no he.2 w₁
  | .whileLoop _ condition body =>
    simp only [Stmt.entries, List.forall_mem_append] at he
    exact L.whileLoop (fun w₁ _ => (L.eval hc condition he.1 w₁).home)
      (fun w₁ _ => L.run hc fuel body he.2 w₁) fuel
  | .forLoop _ init condition update body =>
    simp only [Stmt.entries, List.forall_mem_append] at he
    have hbody (w₁ : S.World) := L.run hc fuel body he.2 w₁
    refine (L.inBlock fun w₁ _ => ?_).home
    refine L.bindHome (L.runIfAny hc fuel init he.1.1.1 w₁) fun w₂ _ _ _ => ?_
    refine L.forLoop ?_ ?_ (fun w₃ _ => L.loopBody _ fun w₄ _ => hbody w₄) fuel
    · rintro e rfl
      exact L.eval hc e he.1.1.2
    · rintro e rfl
      exact L.eval hc e he.1.2
  | .switch _ discriminant cases =>
    simp only [Stmt.entries, List.forall_mem_append] at he
    refine L.bindHome (L.eval hc discriminant he.1 w).home fun w₁ v _ _ => ?_
    exact (L.inBlock fun w₂ _ => L.runArms hc fuel v false cases he.2 w₂).home
  | .breakLoop _ | .continueLoop _ | .empty _ => exact (L.pure trivial).home
  | .raise _ e => exact L.bindHome (L.eval hc e he w).home fun w₁ v _ hv => (L.throwValue hv).home
  | .attempt _ body handler finalizer =>
    simp only [Stmt.entries, List.forall_mem_append] at he
    have hbody := L.inBlock (w := w) fun w₁ _ => L.runBlock hc fuel body he.1.1 w₁
    have hcaught : S.RunsHome w S.completion
        (Eval.catching (Eval.inBlock (body.runBody f fuel)) (Handler.runIfAny f fuel handler))
        (Eval.catching (Eval.inBlock (body.runBody g fuel)) (Handler.runIfAny g fuel handler)) := by
      match handler with
      | none =>
        rw [Handler.runIfAny, Handler.runIfAny, catching_none, catching_none]
        exact hbody.home
      | some (.mk param block) =>
        refine L.catching hbody.home fun w₁ v _ hv => ?_
        exact (L.handling param hv fun w₂ _ => L.runBlock hc fuel block he.1.2 w₂).home
    match finalizer with
    | none => exact hcaught
    | some block =>
      refine L.finalizing hcaught fun w₁ _ => ?_
      exact (L.inBlock fun w₂ _ => L.runBlock hc fuel block he.2 w₂).home
  | .giveBack _ none => exact Runs.home (L.pure (L.primitive (v := .undefined) rfl))
  | .giveBack _ (some e) =>
    exact L.bindHome (L.eval hc e he w).home fun w₁ v _ hv => Runs.home (L.pure hv)
termination_by structural s

theorem runIfAny (L : S.Lawful) (hc : S.Calls f g) (fuel : Nat) (s : Option Stmt)
    (he : ∀ n ∈ Stmt.entriesIfAny s, S.admits n) (w : S.World) :
    S.RunsHome w S.completion (Stmt.runIfAny f fuel s) (Stmt.runIfAny g fuel s) := by
  match s with
  | none => exact L.undefined.home
  | some s => exact L.run hc fuel s he w
termination_by structural s

theorem runAll (L : S.Lawful) (hc : S.Calls f g) (fuel : Nat) (last : Option Value) (ss : List Stmt)
    (he : ∀ n ∈ Stmt.entriesOf ss, S.admits n) (w : S.World)
    (hlast : S.completion w (.normal last)) :
    S.RunsHome w S.completion (Stmt.runAll f fuel last ss) (Stmt.runAll g fuel last ss) := by
  match ss with
  | [] => exact (L.pure hlast).home
  | s :: ss =>
    simp only [Stmt.entriesOf, List.forall_mem_append] at he
    refine L.bindHome (L.run hc fuel s he.1 w) fun w₁ c h₁ hcompletion => ?_
    match c with
    | .normal (some v) => exact L.runAll hc fuel (some v) ss he.2 w₁ hcompletion
    | .normal none => exact L.runAll hc fuel last ss he.2 w₁ (L.completion_mono h₁ hlast)
    | .leave | .skip | .giveBack _ => exact (L.pure hcompletion).home
termination_by structural ss

theorem runBlock (L : S.Lawful) (hc : S.Calls f g) (fuel : Nat) (b : Block)
    (he : ∀ n ∈ b.entries, S.admits n) (w : S.World) :
    S.RunsHome w S.completion (b.runBody f fuel) (b.runBody g fuel) := by
  match b with
  | .mk _ statements => exact L.runAll hc fuel none statements he w trivial
termination_by structural b

theorem runArms (L : S.Lawful) (hc : S.Calls f g) (fuel : Nat) (v : Value) (matched : Bool)
    (cases : List SwitchCase) (he : ∀ n ∈ SwitchCase.entriesOf cases, S.admits n) (w : S.World) :
    S.RunsHome w S.completion (SwitchCase.runArms f fuel v matched cases)
      (SwitchCase.runArms g fuel v matched cases) := by
  match cases with
  | [] => exact L.undefined.home
  | .mk test body :: cases =>
    simp only [SwitchCase.entriesOf, List.forall_mem_append] at he
    refine L.bindHome (L.reached hc v matched test he.1.1 w) fun w₁ matched _ _ => ?_
    split
    · refine L.bindHome (L.runAll hc fuel none body he.1.2 w₁ trivial) fun w₂ c _ hcompletion => ?_
      cases c with
      | normal => exact L.runArms hc fuel v matched cases he.2 w₂
      | leave => exact L.undefined.home
      | skip | giveBack => exact (L.pure hcompletion).home
    · exact L.runArms hc fuel v matched cases he.2 w₁
termination_by structural cases

end

section Calls

variable (L : S.Lawful)

include L

theorem runBody (hc : S.Calls f g) (fuel : Nat) (ss : List Stmt)
    (he : ∀ n ∈ Stmt.entriesOf ss, S.admits n) (w : S.World) :
    S.RunsHome w S.completion (Eval.runBody f fuel ss) (Eval.runBody g fuel ss) :=
  L.bindHome (L.hoistAll ss he w).home fun w₁ _ _ _ => L.runAll hc fuel none ss he w₁ trivial

theorem bindParams {i i' : ScopeId} (hi : S.own w i i') (params : List Ident) {args : List Value}
    (hargs : ∀ v ∈ args, S.sound w v) :
    S.Runs w S.any (Eval.bindParams i params args) (Eval.bindParams i' params args) := by
  induction params generalizing w args with
  | nil => exact L.pure trivial
  | cons p ps ih =>
    have hhead : S.sound w (args.headD .undefined) := by
      cases args with
      | nil => exact L.primitive rfl
      | cons v vs => exact hargs v List.mem_cons_self
    refine L.bind (L.declareLocal hi p.name hhead .var) fun w₁ _ h₁ _ => ?_
    exact ih (L.own_mono h₁ hi) fun v hv => L.sound_mono h₁ (hargs v (List.mem_of_mem_tail hv))

theorem callClosure (hc : S.Calls f g) (fuel : Nat) {k : Function}
    (hk : ∀ n ∈ k.entries, S.admits n) {home home' : ScopeId} (hhome : S.scope w home home')
    {receiver : Value} (hreceiver : S.sound w receiver) {args : List Value}
    (hargs : ∀ v ∈ args, S.sound w v) :
    S.Runs w S.sound (Eval.callClosure f fuel k home receiver args)
      (Eval.callClosure g fuel k home' receiver args) := by
  obtain ⟨name, params, ⟨o, statements⟩⟩ := k
  have hsome : ∀ v ∈ some receiver, S.sound w v := by
    rintro v ⟨⟩
    exact hreceiver
  refine L.addScope hhome true hsome fun w₁ i i' h₁ hi => ?_
  refine L.bind (L.bindParams hi params (L.all_mono h₁ hargs)) fun w₂ _ h₂ _ => ?_
  refine L.bind (L.inScope (L.own_mono h₂ hi) (L.runBody hc fuel statements hk w₂)) ?_
  intro w₃ c _ hcompletion
  match c with
  | .giveBack v => exact L.pure hcompletion
  | .normal _ => exact L.pure (L.primitive rfl)
  | .leave | .skip => exact L.throw nofun

theorem activation (hc : S.Calls f g) (fuel : Nat) (id : ObjectId) {receiver : Value}
    (hreceiver : S.sound w receiver) {args : List Value} (hargs : ∀ v ∈ args, S.sound w v)
    (hlength : S.admits args.length) :
    S.Runs w S.sound (Eval.activation f fuel id receiver args)
      (Eval.activation g fuel id receiver args) := by
  refine Runs.ofReading fun m m' hm => ?_
  have halike := (L.alike hm).heap id
  cases hkind : (m.heap.object id).kind with
  | closure k home =>
    obtain ⟨hk, home', hkind', hhome⟩ := L.closure hm hkind
    rw [hkind']
    exact L.callClosure hc fuel hk hhome hreceiver hargs
  | native name native =>
    have hkind' : (m'.heap.object id).kind = .native name native := by
      generalize m.heap.object id = object, m'.heap.object id = object' at halike hkind
      cases halike with
      | refl => exact hkind
      | closure => cases hkind
    rw [hkind']
    refine L.runNative hc native (fun host hnative => ?_) hreceiver hargs hlength
    exact L.host hm (hnative ▸ hkind)
  | plain | array | error =>
    have hkind' : (m'.heap.object id).kind = (m.heap.object id).kind := by
      generalize m.heap.object id = object, m'.heap.object id = object' at halike hkind
      cases halike with
      | refl => rfl
      | closure => cases hkind
    rw [hkind', hkind]
    exact L.throw nofun

theorem entering (frame : Frame) {x y : Eval Value} (hx : S.Runs w S.sound x y) :
    S.Runs w S.sound (Eval.entering frame x) (Eval.entering frame y) := by
  refine Runs.ofReading fun m m' hm => ?_
  rw [(L.alike hm).atCallLimit]
  split
  · exact L.throwNamed _ _
  · intro n n' hn
    refine .always (hx _ _ (L.frames hn (frame :: ·))) fun w₁ l l' h => ?_
    exact ⟨h.le, L.frames h.related List.tail, h.current, h.current'⟩

theorem calls_monitored {watch : Eval Value → Eval Value}
    (hwatch : ∀ w x y, S.Runs w S.sound x y → S.Runs w S.sound (watch x) (watch y)) (fuel : Nat) :
    S.Calls (monitored watch fuel) (monitored watch fuel) := by
  induction fuel with
  | zero => exact fun w _ _ _ _ _ _ _ => L.throw nofun
  | succ fuel ih =>
    intro w id receiver args frame hreceiver hargs hlength
    exact L.entering frame (hwatch _ _ _ (L.activation ih fuel id hreceiver hargs hlength))

theorem calls (fuel : Nat) : S.Calls (invoke fuel) (invoke fuel) := by
  rw [← monitored_id]
  exact L.calls_monitored (fun _ _ _ hx => hx) fuel

end Calls

end Lawful

end Tandem

end ScriptEngine
