import Mathlib.Logic.Relation
import ScriptEngine.Proofs.Evaluation.Rounds

/-!
# What closures of a round see

When the body of a round has ended, the run goes on outside the scope of the round, and code runs
inside it only in calls of closures that were made there. If none of their functions writes a loop
variable, the scope is sealed: the loop variables of the round keep their values for the rest of the
run, and that is what the closures read.
-/

namespace ScriptEngine

open Eval

/-- Something that a run does outside a scope: it carries something out, perhaps up to a call in it,
or does one of the things from which the evaluator builds what is around. -/
inductive Machine.StepOutside (s : ScopeId) (m : Machine) : Machine → Prop where
  | activity {α : Type} (a : Activity α) (stop : Machine → Bool) (fuel rounds : Nat)
      (hout : ¬m.scopes.Inside s m.current) :
      StepOutside s m (final (a.run (monitored (stopping stop) fuel) rounds m))
  | enter (id : ScopeId) (hid : id < m.scopes.size) (hout : ¬m.scopes.Inside s id) :
      StepOutside s m { m with current := id }
  | calls (frames : List Frame) (joining : List ObjectId) :
      StepOutside s m { m with frames := frames, joining := joining }
  | addScope {new : Scope} {parent : ScopeId} (hparent : new.parent = some parent)
      (hlt : parent < m.scopes.size) : StepOutside s m { m with scopes := m.scopes.add new }
  | declareLocal (id : ScopeId) (name : String) (v : Value) (kind : BindingKind)
      (hout : ¬m.scopes.Inside s id) : StepOutside s m (final (declareLocal id name v kind m))
  | declare (name : String) (v : Value) (kind : BindingKind)
      (hout : ¬m.scopes.Inside s m.current) : StepOutside s m (final (declare name v kind m))
  | assign (name : String) (v : Value) (hout : ¬m.scopes.Inside s m.current) :
      StepOutside s m (final (assign name v m))
  | copyInto (source target : ScopeId) (names : List String) (hout : ¬m.scopes.Inside s target) :
      StepOutside s m (final (copyInto source target names m))
  | copyBack (source target : ScopeId) (names : List String) (hout : ¬m.scopes.Inside s target) :
      StepOutside s m (copyBack source target names m)
  | heap (heap : Heap) (hclosures : ∀ id f home, (heap.object id).kind = .closure f home →
      (m.heap.object id).kind = .closure f home ∨
        home < m.scopes.size ∧ ¬m.scopes.Inside s home) :
      StepOutside s m { m with heap := heap }

/-- The machines that a run comes to after it has left a scope. -/
def Machine.LaterOutside (s : ScopeId) : Machine → Machine → Prop :=
  Relation.ReflTransGen (StepOutside s)

theorem ScopeTree.not_inside_of_lt {t : ScopeTree} {s id : ScopeId} (h : id < s) : ¬t.Inside s id :=
  fun hinside => Nat.not_lt_of_le hinside.le h

namespace Seal

variable {S : Seal} {m m' : Machine}

theorem Sealed.admitted_of_outside (hm : S.Sealed m)
    (hout : ¬m.scopes.Inside S.scope m.current) (P : Function → Prop) (W V : String → Prop) :
    S.Admitted P W V m := by
  refine ⟨⟨fun hinside => absurd hinside hout, fun hinside => absurd hinside hout, fun hvars => ?_⟩,
    fun hcurrent => ?_⟩
  · exact absurd (ScopeTree.inside_of_climb hm.wellScoped.ordered hvars) hout
  · rw [hcurrent] at hout
    exact absurd .here hout

theorem Sealed.stepOutside (hm : S.Sealed m) {s : ScopeId} (hs : m.scopes.Inside s S.scope)
    (h : m.StepOutside s m') : S.Lasts m m' := by
  have hapart {id : ScopeId} (hout : ¬m.scopes.Inside s id) : ¬m.scopes.Inside S.scope id :=
    fun hinside => hout (hs.trans hinside)
  have hne {id : ScopeId} (hout : ¬m.scopes.Inside s id) : id ≠ S.scope := by
    rintro rfl
    exact hout hs
  cases h with
  | activity a stop fuel rounds hout =>
    have hadmitted := hm.admitted_of_outside (hapart hout) (· ∈ a.functions) (· ∈ a.writes)
      fun _ => True
    exact (keeps_activity stop fuel rounds a m hm hadmitted).toLasts
  | enter id hid => exact ⟨hm.enter hid, .refl _, fun _ _ => rfl⟩
  | calls => exact ⟨hm.congr rfl rfl hm.wellScoped.current, .refl _, fun _ _ => rfl⟩
  | addScope hparent hlt => exact (hm.kept_addScope hparent hlt).toLasts
  | declareLocal id name v kind hout =>
    exact (keepsAt_declareLocal hm (fun hid => absurd hid (hne hout)) v kind).toLasts
  | declare name v kind hout =>
    have hvars (hfound : m.scopes.nearest? m.current (·.holdsVars) = some S.scope) :
        name ∉ S.names :=
      absurd (ScopeTree.inside_of_climb hm.wellScoped.ordered hfound) (hapart hout)
    exact (keepsAt_declare hm (fun hid => absurd hid (hne hout)) (fun _ => hvars) v).toLasts
  | assign name v hout =>
    exact (keepsAt_assign hm (fun hinside => absurd hinside (hapart hout)) v).toLasts
  | copyInto source target names hout => exact (keepsAt_copyInto hm (hne hout) names).toLasts
  | copyBack source target names hout =>
    exact (hm.kept_copyBack source (fun htarget => absurd htarget (hne hout)) names).toLasts
  | heap heap hclosures =>
    have hwell : Machine.WellScoped { m with heap := heap } := by
      refine ⟨hm.wellScoped.ordered, hm.wellScoped.current, fun id f home hkind => ?_⟩
      rcases hclosures id f home hkind with hold | ⟨hlt, -⟩
      · exact hm.wellScoped.homes id f home hold
      · exact hlt
    have hkept : S.Kept m { m with heap := heap } := by
      refine hm.kept_heap hwell fun id f home hkind hinside => ?_
      rcases hclosures id f home hkind with hold | ⟨-, hout⟩
      · exact hm.closures id f home hold hinside
      · exact absurd hinside (hapart hout)
    exact hkept.toLasts

theorem Sealed.laterOutside (hm : S.Sealed m) {s : ScopeId} (hs : m.scopes.Inside s S.scope)
    (h : Machine.LaterOutside s m m') : S.Lasts m m' := by
  induction h with
  | refl => exact .refl hm
  | tail _ hstep ih =>
    exact ih.trans (ih.sealed.stepOutside ((ih.grows.inside_iff hm.lt_size).mpr hs) hstep)

end Seal

namespace Eval

section Rounds

variable {names : List String} {before inside : Machine} {stop : Machine → Bool} {fuel n : Nat}

theorem OpensRound.heap_eq (h : OpensRound names before inside) : inside.heap = before.heap := by
  rw [h.machine]

theorem OpensRound.current_eq (h : OpensRound names before inside) :
    inside.current = before.scopes.size := by
  rw [h.machine]

theorem OpensRound.wellScoped (h : OpensRound names before inside) (hbefore : before.WellScoped) :
    inside.WellScoped := by
  refine ⟨fun id parent hparent => ?_, ?_, fun id f home hkind => ?_⟩
  · rcases Nat.lt_trichotomy id before.scopes.size with hid | rfl | hid
    · rw [h.older id hid] at hparent
      exact hbefore.ordered id parent hparent
    · rw [h.parent] at hparent
      cases hparent
      exact hbefore.current
    · have hnone : inside.scopes[id]? = none := by
        rw [Array.getElem?_eq_none_iff, h.size]
        exact hid
      simp [ScopeTree.scope, Array.getD_eq_getD_getElem?, hnone, default, Scope.root] at hparent
  · rw [h.current_eq, h.size]
    exact Nat.lt_succ_self _
  · rw [h.heap_eq] at hkind
    rw [h.size]
    exact Nat.lt_succ_of_lt (hbefore.homes id f home hkind)

/-- The seal on the scope of a round whose functions spare the loop variables. While its body runs
it keeps no name. -/
def roundSeal (s : ScopeId) (names kept : List String) : Seal :=
  ⟨s, kept, Function.Spares names, fun hf => by cases hf with | intro _ hinner => exact hinner⟩

theorem OpensRound.sealed_ended (h : OpensRound names before inside) (hbefore : before.WellScoped)
    {body : Stmt} (hspares : ∀ g ∈ body.functions, g.Spares names) (stop : Machine → Bool)
    (fuel n : Nat) :
    (roundSeal before.scopes.size names names).Sealed
      (final (body.run (monitored (stopping stop) fuel) n inside)) := by
  have hlt : before.scopes.size < inside.scopes.size := by
    rw [h.size]
    exact Nat.lt_succ_self _
  have hsealed : (roundSeal before.scopes.size names []).Sealed inside := by
    refine ⟨h.wellScoped hbefore, hlt, ?_, nofun⟩
    intro id f home hkind hinside
    rw [h.heap_eq] at hkind
    exact absurd hinside (ScopeTree.not_inside_of_lt (hbefore.homes id f home hkind))
  have hkept : (roundSeal before.scopes.size names []).Kept inside
      (final (body.run (monitored (stopping stop) fuel) n inside)) :=
    Seal.keeps_activity stop fuel n (.statement body) inside hsealed
      ⟨⟨fun _ => hspares, fun _ => nofun, fun _ => nofun⟩, fun _ => rfl⟩
  refine ⟨hkept.sealed.wellScoped, hkept.sealed.lt_size, hkept.sealed.closures, ?_⟩
  intro f hf name hwrites hname
  cases hf with
  | intro hbody _ => exact absurd hname (hbody name hwrites)

/-- The machines between the rounds of a loop. -/
structure BetweenRounds (names : List String) (loop : ScopeId) (m : Machine) : Prop where
  wellScoped : m.WellScoped
  current : m.current = loop
  binds : m.Binds names

variable {loop : ScopeId} {m : Machine}

theorem BetweenRounds.expression (h : BetweenRounds names loop m) (e : Expr) :
    BetweenRounds names loop (final (e.eval (monitored (stopping stop) fuel) m)) := by
  have hretains := retains_activity stop fuel 0 (.expression e) m
  exact ⟨h.wellScoped.activity stop fuel 0 (.expression e), hretains.current.trans h.current,
    h.binds.retains hretains⟩

theorem BetweenRounds.close {ended : Machine} (h : BetweenRounds names loop m)
    (hended : ended.WellScoped) (hsize : m.scopes.size ≤ ended.scopes.size)
    (hcloses : ClosesRound names m ended (closeRound names m ended)) :
    BetweenRounds names loop (closeRound names m ended) := by
  have hlt : m.current < ended.scopes.size := Nat.lt_of_lt_of_le h.wellScoped.current hsize
  have hcurrent : (closeRound names m ended).current = m.current := by
    rw [hcloses.machine]
  have hsealed : (Seal.nothing m.current).Sealed { ended with current := m.current } :=
    Seal.sealed_nothing (hended.enter hlt) hlt
  have hkept : (Seal.nothing m.current).Kept _ (closeRound names m ended) :=
    hsealed.kept_copyBack m.scopes.size (fun _ => rfl) names
  refine ⟨hkept.sealed.wellScoped, hcurrent.trans h.current, fun name hname => ?_⟩
  obtain ⟨-, b, -, hb, -⟩ := hcloses.handedBack name hname
  rw [hcurrent, hb]
  rfl

theorem laterOutside_close {ended : Machine} {s : ScopeId} (hcurrent : m.current < s)
    (hlt : m.current < ended.scopes.size) :
    Machine.LaterOutside s ended (closeRound names m ended) := by
  have hleft : ended.StepOutside s { ended with current := m.current } :=
    .enter m.current hlt (ScopeTree.not_inside_of_lt hcurrent)
  exact .tail (.single hleft)
    (.copyBack m.scopes.size m.current names (ScopeTree.not_inside_of_lt hcurrent))

theorem BetweenRounds.laterOutside_body (h : BetweenRounds names loop m)
    (hopens : OpensRound names m inside)
    (hcopies : copyInto m.current m.scopes.size names (openBlock m) =
      .ok () { inside with current := m.current })
    {s : ScopeId} (hloop : loop < s) (hs : s < m.scopes.size) {body : Stmt} :
    Machine.LaterOutside s m (final (body.run (monitored (stopping stop) fuel) n inside)) := by
  have hcurrent : m.current < s := by
    rw [h.current]
    exact hloop
  have hinside : { inside with current := m.scopes.size } = inside := by
    rw [← hopens.current_eq]
  have hsize : m.scopes.size < inside.scopes.size := by
    rw [hopens.size]
    exact Nat.lt_succ_self _
  have hout : ¬inside.scopes.Inside s m.scopes.size := fun hin =>
    ScopeTree.not_inside_of_lt hcurrent (hin.parent (Nat.ne_of_gt hs) hopens.parent)
  have hopened : m.StepOutside s (openBlock m) := .addScope rfl h.wellScoped.current
  have hcopied : (openBlock m).StepOutside s { inside with current := m.current } := by
    have hstep : (openBlock m).StepOutside s
        (final (copyInto m.current m.scopes.size names (openBlock m))) := by
      refine .copyInto _ _ _ fun hin => ?_
      have hparent := (ScopeTree.inside_add_iff hs rfl h.wellScoped.current).mp hin
      exact ScopeTree.not_inside_of_lt hcurrent hparent
    rwa [hcopies] at hstep
  have hentered : Machine.StepOutside s { inside with current := m.current } inside := by
    have hstep :=
      Machine.StepOutside.enter (m := { inside with current := m.current }) m.scopes.size
      hsize hout
    rwa [hinside] at hstep
  have hran :
      inside.StepOutside s (final (body.run (monitored (stopping stop) fuel) n inside)) := by
    refine .activity (.statement body) stop fuel n ?_
    rwa [hopens.current_eq]
  exact .tail (.tail (.tail (.single hopened) hcopied) hentered) hran

theorem BetweenRounds.round (h : BetweenRounds names loop m) (hnodup : names.Nodup) (body : Stmt)
    (stop : Machine → Bool) (fuel n : Nat) :
    ∃ inside after, OpensRound names m inside ∧
      iteration names (body.run (monitored (stopping stop) fuel) n) m =
        always (body.run (monitored (stopping stop) fuel) n) (fun _ => after) inside ∧
      ClosesRound names m (final (body.run (monitored (stopping stop) fuel) n inside)) after ∧
      BetweenRounds names loop after ∧ m.scopes.size < after.scopes.size ∧
      Machine.LaterOutside m.scopes.size
        (final (body.run (monitored (stopping stop) fuel) n inside)) after ∧
      ∀ s, loop < s → s < m.scopes.size → Machine.LaterOutside s m after := by
  obtain ⟨inside, hopens, hcopies, hruns⟩ := iteration_eq h.wellScoped.current hnodup h.binds
  have hretains : inside.Retains (final (body.run (monitored (stopping stop) fuel) n inside)) :=
    retains_activity stop fuel n (.statement body) inside
  have hcloses := hopens.closes h.wellScoped.current h.binds hretains.scopes
  have hsize : m.scopes.size <
      (final (body.run (monitored (stopping stop) fuel) n inside)).scopes.size := by
    refine Nat.lt_of_lt_of_le ?_ hretains.scopes.size_le
    rw [hopens.size]
    exact Nat.lt_succ_self _
  have hlt := Nat.lt_trans h.wellScoped.current hsize
  refine ⟨inside, _, hopens, ?_, hcloses, ?_, ?_, ?_, fun s hloop hs => ?_⟩
  · rw [hruns]
    unfold always
    cases body.run (monitored (stopping stop) fuel) n inside <;> rfl
  · exact h.close ((hopens.wellScoped h.wellScoped).activity stop fuel n (.statement body))
      (Nat.le_of_lt hsize) hcloses
  · rwa [hcloses.size]
  · exact laterOutside_close h.wellScoped.current hlt
  · refine (h.laterOutside_body hopens hcopies hloop hs).trans (laterOutside_close ?_ hlt)
    rwa [h.current]

theorem BetweenRounds.iteration (h : BetweenRounds names loop m) (hnodup : names.Nodup)
    (body : Stmt) : BetweenRounds names loop
      (final (iteration names (body.run (monitored (stopping stop) fuel) n) m)) := by
  obtain ⟨inside, after, -, hruns, -, hafter, -⟩ := h.round hnodup body stop fuel n
  rwa [hruns, final_always]

def Beyond (names : List String) (loop s : ScopeId) (left m : Machine) : Prop :=
  Machine.LaterOutside s left m ∧ BetweenRounds names loop m

section Beyond

variable {left : Machine} {s : ScopeId} (hloop : loop < s)

include hloop

theorem Beyond.expression (h : Beyond names loop s left m) (e : Expr) :
    Beyond names loop s left (final (e.eval (monitored (stopping stop) fuel) m)) := by
  refine ⟨h.1.tail (.activity (.expression e) stop fuel 0 ?_), h.2.expression e⟩
  rw [h.2.current]
  exact ScopeTree.not_inside_of_lt hloop

theorem Beyond.iteration (hleft : left.WellScoped) (hs : s < left.scopes.size)
    (hnodup : names.Nodup) (h : Beyond names loop s left m) (body : Stmt) :
    Beyond names loop s left
      (final (iteration names (body.run (monitored (stopping stop) fuel) n) m)) := by
  have hsealed := ((Seal.sealed_nothing hleft hs).laterOutside .here h.1).sealed
  obtain ⟨inside, after, -, hruns, -, hafter, -, -, hlater⟩ := h.2.round hnodup body stop fuel n
  rw [hruns, final_always]
  exact ⟨h.1.trans (hlater s hloop hsealed.lt_size), hafter⟩

end Beyond

/-- The loop variables of a round are as they were when its body ended, also for whoever sees them
through other scopes. From the scopes where they were in sight then, they still are. -/
structure KeepsRound (names : List String) (s : ScopeId) (ended later : Machine) : Prop where
  bindings : ∀ name ∈ names, later.scopes.getLocal? s name = ended.scopes.getLocal? s name
  seen : ∀ id, ∀ name ∈ names, later.scopes.holder? id name = some s →
    later.scopes.lookup? id name = ended.scopes.lookup? s name
  captured : ∀ id < ended.scopes.size, ∀ name ∈ names, ended.scopes.holder? id name = some s →
    later.scopes.holder? id name = some s

theorem unbound_laterOutside {s g : ScopeId} {name : String} {ended later : Machine}
    (hended : ended.WellScoped) (hlater : Machine.LaterOutside s ended later)
    (hinside : ended.scopes.Inside s g) (hlt : g < ended.scopes.size) (hne : g ≠ s)
    (hname : ended.scopes.getLocal? g name = none) : later.scopes.getLocal? g name = none := by
  let S : Seal := ⟨g, [name], fun _ => True, fun _ _ _ => trivial⟩
  have hsealed : S.Sealed ended := by
    refine ⟨hended, hlt, fun _ _ _ _ _ => trivial, fun _ _ n _ hn => ?_⟩
    cases List.mem_singleton.mp hn
    refine ⟨hname, ?_⟩
    cases hinside with
    | here => exact absurd rfl hne
    | under hparent => exact hparent ▸ nofun
  rw [← hname]
  exact (hsealed.laterOutside hinside hlater).bindings name (List.mem_singleton_self name)

theorem keepsRound_of_sealed {S : Seal} {ended later : Machine} (hended : S.Sealed ended)
    (hbinds : ∀ name ∈ S.names, (ended.scopes.getLocal? S.scope name).isSome)
    (hlater : Machine.LaterOutside S.scope ended later) :
    KeepsRound S.names S.scope ended later := by
  have hlasts := hended.laterOutside .here hlater
  refine ⟨hlasts.bindings, fun id name hname hholder => ?_, fun id hid name hname hholder => ?_⟩
  · obtain ⟨b, hb⟩ := Option.isSome_iff_exists.mp (hbinds name hname)
    rw [ScopeTree.lookup?_of_getLocal? hb, ScopeTree.lookup?, hholder, Option.bind_some,
      hlasts.bindings name hname, hb]
    rfl
  · refine hlasts.grows.nearest?_eq_some hended.wellScoped.ordered hid hholder ?_ ?_
    · rw [ScopeTree.has_eq, hlasts.bindings name hname]
      exact hbinds name hname
    · intro g hg hinside hunbound
      rw [ScopeTree.has_eq, Option.isSome_eq_false_iff, Option.isNone_iff_eq_none] at hunbound ⊢
      have hlt := Nat.lt_of_le_of_lt hg hid
      refine unbound_laterOutside hended.wellScoped hlater hinside hlt ?_ hunbound
      rintro rfl
      exact absurd (hbinds name hname) (by simp [hunbound])

section Loop

variable {condition update : Option Expr} {body : Stmt} {k : Nat}

theorem BetweenRounds.captures (hm : BetweenRounds names loop m) (hnodup : names.Nodup)
    (hbegins : BeginsRound (Expr.evalIfAny (monitored (stopping stop) fuel) condition)
      (Expr.evalIfAny (monitored (stopping stop) fuel) update)
      (Eval.iteration names (body.run (monitored (stopping stop) fuel) n)) m k before) :
    let run := body.run (monitored (stopping stop) fuel) n
    let c := Expr.evalIfAny (monitored (stopping stop) fuel) condition
    let u := Expr.evalIfAny (monitored (stopping stop) fuel) update
    loop < before.scopes.size ∧ ∃ inside after, OpensRound names before inside ∧
      Eval.iteration names run before = always run (fun _ => after) inside ∧
      ClosesRound names before (final (run inside)) after ∧
      (∀ k' before', k < k' → BeginsRound c u (Eval.iteration names run) m k' before' →
        Machine.LaterOutside before.scopes.size after before') ∧
      (∀ rounds, k < rounds → Beyond names loop before.scopes.size after
        (final (forLoop c u (Eval.iteration names run) rounds m))) ∧
      ((∀ g ∈ body.functions, g.Spares names) → ∀ later,
        Machine.LaterOutside before.scopes.size after later →
          KeepsRound names before.scopes.size (final (run inside)) later) := by
  intro run c u
  have hbetween : BetweenRounds names loop before :=
    hbegins.induction (fun _ e h => h.expression e) (fun _ h => h.iteration hnodup body) hm
  obtain ⟨inside, after, hopens, hruns, hcloses, hafter, hsize, hleft, -⟩ :=
    hbetween.round hnodup body stop fuel n
  have hloop : loop < before.scopes.size := by
    rw [← hbetween.current]
    exact hbetween.wellScoped.current
  let Q := Beyond names loop before.scopes.size after
  have hended : Q (final (Eval.iteration names run before)) := by
    rw [hruns, final_always]
    exact ⟨.refl, hafter⟩
  have hexpr (m : Machine) (e : Expr) (h : Q m) :
      Q (final (e.eval (monitored (stopping stop) fuel) m)) :=
    h.expression hloop e
  have hround (m : Machine) (h : Q m) : Q (final (Eval.iteration names run m)) :=
    h.iteration hloop hafter.wellScoped hsize hnodup body
  refine ⟨hloop, inside, after, hopens, hruns, hcloses, fun k' before' hlt hbegins' => ?_,
    fun rounds hlt => ?_, fun hspares later hlater => ?_⟩
  · exact (hbegins.later_induction hexpr hround hended hlt hbegins').1
  · exact hbegins.end_induction hexpr hround hended hlt
  · have hsealed := hopens.sealed_ended hbetween.wellScoped hspares stop fuel n
    refine keepsRound_of_sealed hsealed (fun name hname => ?_) (hleft.trans hlater)
    obtain ⟨b, -, hb, -⟩ := hcloses.handedBack name hname
    exact Option.isSome_of_eq_some hb

end Loop

end Rounds

end Eval

/-- Every round of a `for` with loop variables runs its body in a new scope with the values that the
scope of the loop has for them, and hands back the values that they have come to. If no function in
the body writes a loop variable, what the round has for them stays for the rest of the run, in sight
of the closures that were made in the round: through later rounds, to the end of the loop, and
whatever is done after that. -/
theorem loop_variables_are_captured {m : Machine} (hm : m.WellScoped) {kind : BindingKind}
    (hkind : kind ≠ .var) {ds : List Declarator} (hds : ds ≠ []) (o o' : Origin)
    (condition update : Option Expr) (body : Stmt) (fuel n : Nat) {m₁ : Machine}
    (hdeclared : Declarator.runAll (invoke fuel) kind ds
      { openBlock m with current := m.scopes.size } = .ok () m₁) :
    let names := ds.map Declarator.name
    let loop : Stmt := .forLoop o (some (.declaration o' kind ds)) condition update body
    let run := body.run (invoke fuel) n
    let c := Expr.evalIfAny (invoke fuel) condition
    let u := Expr.evalIfAny (invoke fuel) update
    (∀ round, (∀ k before, BeginsRound c u (iteration names run) m₁ k before →
        round before = iteration names run before) →
      loop.run (invoke fuel) n m =
        always (forLoop c u round n) (fun m' => { m' with current := m.current }) m₁) ∧
    ∀ k before, BeginsRound c u (iteration names run) m₁ k before → ∃ inside after,
      OpensRound names before inside ∧
      iteration names run before = always run (fun _ => after) inside ∧
      ClosesRound names before (final (run inside)) after ∧
      (∀ k' before', k < k' → BeginsRound c u (iteration names run) m₁ k' before' →
        Machine.LaterOutside before.scopes.size after before') ∧
      (k < n → Machine.LaterOutside before.scopes.size after (final (loop.run (invoke fuel) n m))) ∧
      ((∀ g ∈ body.functions, g.Spares names) → ∀ later,
        Machine.LaterOutside before.scopes.size after later →
          KeepsRound names before.scopes.size (final (run inside)) later) := by
  rw [← monitored_never fuel] at hdeclared ⊢
  intro names loop run c u
  have hopened : Machine.WellScoped { openBlock m with current := m.scopes.size } :=
    (hm.addScope rfl hm.current).enter (by simp [ScopeTree.add])
  obtain ⟨-, hnodup, hretains, hbinds⟩ := binds_declarators hkind hopened.current hdeclared
  have hstart : BetweenRounds names m.scopes.size m₁ :=
    ⟨wellScoped_declarators hopened hdeclared, hretains.current, hbinds⟩
  have hloop : loop.run (monitored (stopping fun _ => false) fuel) n m =
      always (forLoop c u (iteration names run) n) (fun m' => { m' with current := m.current })
        m₁ := by
    rw [run_forLoop_of_declaration hkind hds, inBlock_eq]
    simp only [always, bind, EStateM.bind, hdeclared]
    rfl
  refine ⟨fun round hround => ?_, fun k before hbegins => ?_⟩
  · rw [hloop]
    simp only [always, forLoop_congr n hround]
  · obtain ⟨houter, inside, after, hopens, hruns, hcloses, hlater, hend, hkeeps⟩ :=
      hstart.captures hnodup hbegins
    refine ⟨inside, after, hopens, hruns, hcloses, hlater, fun hlt => ?_, hkeeps⟩
    obtain ⟨hend, hbetween⟩ := hend n hlt
    have hlast := hbetween.wellScoped.current
    rw [hbetween.current] at hlast
    rw [hloop, final_always]
    refine hend.tail (.enter m.current (Nat.lt_trans hm.current hlast) ?_)
    exact ScopeTree.not_inside_of_lt (Nat.lt_trans hm.current houter)

/-- A loop that makes a closure over its variable and is left. -/
theorem loop_variables_are_captured_closure :
    let f : Function :=
      .mk none [] (.mk default [.giveBack default (some (.identifier default "i"))])
    let ds : List Declarator := [.mk ⟨"i", default⟩ (some (.bool default true))]
    let body : Stmt := .block default
      (.mk default [.expression default (.function default f), .breakLoop default])
    let loop : Stmt := .forLoop default (some (.declaration default .let_ ds)) none none body
    let m : Machine := ⟨#[], #[Scope.root], 0, [], [], none⟩
    let i : Binding := ⟨.bool true, .let_⟩
    let m₁ : Machine := ⟨#[], #[Scope.root, (Scope.block 0).bind "i" i], 1, [], [], none⟩
    Declarator.runAll (invoke 1) .let_ ds { openBlock m with current := 1 } = .ok () m₁ ∧
      BeginsRound none none (iteration ["i"] (body.run (invoke 1) 1)) m₁ 0 m₁ ∧
      ∃ inside, OpensRound ["i"] m₁ inside ∧
        KeepsRound ["i"] 2 (final (body.run (invoke 1) 1 inside))
          (final (loop.run (invoke 1) 1 m)) := by
  intro f ds body loop m i m₁
  have hm : m.WellScoped := by
    refine ⟨fun id parent hparent => ?_, Nat.zero_lt_one, fun id f home hkind => ?_⟩
    · cases id <;> cases hparent
    · cases hkind
  have hdeclared :
      Declarator.runAll (invoke 1) .let_ ds { openBlock m with current := 1 } = .ok () m₁ := rfl
  have hbegins : BeginsRound none none (iteration ["i"] (body.run (invoke 1) 1)) m₁ 0 m₁ :=
    .first rfl
  have hspares : ∀ g ∈ body.functions, g.Spares ["i"] := by
    intro g hg
    cases List.mem_singleton.mp hg
    exact .intro nofun nofun
  obtain ⟨-, hrounds⟩ := loop_variables_are_captured hm (nofun : BindingKind.let_ ≠ .var)
    (nofun : ds ≠ []) default default none none body 1 1 hdeclared
  obtain ⟨inside, after, hopens, -, -, -, hend, hkeeps⟩ := hrounds 0 m₁ hbegins
  exact ⟨hdeclared, hbegins, inside, hopens, hkeeps hspares _ (hend Nat.zero_lt_one)⟩

end ScriptEngine
