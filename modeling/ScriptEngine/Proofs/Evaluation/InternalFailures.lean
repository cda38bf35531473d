import ScriptEngine.Proofs.Evaluation.Admission
import ScriptEngine.Proofs.Evaluation.Jumps

/-!
# No internal failures

On a heap where all closures are well nested and all natives are built in, no call fails internally:
calls only reach callable objects, and the body of a well-nested function ends normally or returns.
Running well-nested programs keeps the heap so.
-/

namespace ScriptEngine

namespace Machine

/-- All closures of the heap are well nested, and all natives are built in. -/
abbrev WellNested (m : Machine) : Prop :=
  m.Admits Function.WellNested

def KeepsCallables (m m' : Machine) : Prop :=
  ∀ id, (m.heap.object id).kind.isCallable → (m'.heap.object id).kind.isCallable

theorem keepsCallables_alloc (m : Machine) (o : Object) :
    m.KeepsCallables { m with heap := m.heap.alloc o } := by
  intro id hid
  rw [Heap.object_alloc]
  split
  next hsize =>
    -- the number is not in use before, so nothing callable has it
    subst hsize
    simp [Heap.object, default, Object.bare, Object.Kind.isCallable] at hid
  next => exact hid

theorem keepsCallables_modify (m : Machine) {f : Object → Object}
    (hf : ∀ o : Object, o.kind.Similar (f o).kind) (id : ObjectId) :
    m.KeepsCallables { m with heap := m.heap.modify id f } :=
  fun i hi => (m.heap.similar_modify hf id i).isCallable.trans hi

theorem Change.keepsCallables {P : Function → Prop} {m m' : Machine} (h : m.Change P m') :
    m.KeepsCallables m' := by
  cases h with
  | alloc o => exact keepsCallables_alloc m o
  | define id key v => exact keepsCallables_modify m (fun o => o.similar_define key v) id
  | write id slot key v => exact keepsCallables_modify m (fun o => o.similar_write slot key v) id
  | append id vs => exact keepsCallables_modify m (fun o => o.similar_append vs) id
  | dropLast id => exact keepsCallables_modify m (fun o => o.similar_dropLast) id
  | addScope | assign | declare | overwrite => exact fun _ hid => hid

end Machine

namespace Eval

open Machine

def jumpContract : Contract Function.WellNested where
  holds := WellNested
  keeps := KeepsCallables
  fails e := ∀ c, e ≠ .internal c
  refl _ _ hid := hid
  trans hab hbc id hid := hbc id (hab id hid)
  change hm hc _ := ⟨hm.change hc, hc.keepsCallables⟩
  enter _ hm := hm
  leave _ _ hm' hk := ⟨hm', hk⟩
  join _ hm := hm
  joined _ _ hm' hk := ⟨hm', hk⟩
  call _ hm _ := hm
  returned _ _ hm' hk := ⟨hm', hk⟩
  thrown _ _ _ h := nomatch h
  excuses _ _ := False
  excuses_retains _ h _ := h

theorem outOfFuel_meets_jumpContract : jumpContract.fails .outOfFuel :=
  fun _ h => nomatch h

/-- Two ways to make calls agree on callable objects and meet the contract there. -/
def SameOnCallables (f g : Invoke) : Prop :=
  ∀ id receiver args frame m, m.WellNested → (m.heap.object id).kind.isCallable →
    jumpContract.MeetsAt .stay m (f id receiver args frame) (g id receiver args frame)

theorem isCallable_of_callable? {h : Heap} {v : Value} {id : ObjectId}
    (hv : h.callable? v = some id) : (h.object id).kind.isCallable := by
  cases v with
  | object i =>
    simp only [Heap.callable?, Option.ite_none_right_eq_some, Option.some.injEq] at hv
    rw [← hv.2]
    exact hv.1
  | undefined | null | bool | number | string => cases hv

theorem sameCalls_of_callables {f g : Invoke} (hi : SameOnCallables f g) :
    SameCalls .stay (jumpContract.Meets .stay) f g := by
  have h : Congruence Function.WellNested .stay (jumpContract.Meets .stay) := Contract.congruence
  refine ⟨fun callee receiver args m hm => ?_, fun o source callee receiver args m hm => ?_,
    fun o source callee args m hm => ?_⟩
  · refine .of_reading_stay ?_
    split
    next => exact h.bind (h.reading (by simp)) (fun _ => h.throwNamed _ _) m hm
    next id hid =>
      refine .of_reading_stay ?_
      exact hi _ _ _ _ m hm (isCallable_of_callable? hid)
  · refine .of_reading_stay ?_
    split
    next => exact h.throwNamed _ _ m hm
    next id hid =>
      refine .of_reading_stay ?_
      exact hi _ _ _ _ m hm (isCallable_of_callable? hid)
  · refine .of_reading_stay ?_
    split
    next => exact h.throwNamed _ _ m hm
    next id hid =>
      have hcallable := isCallable_of_callable? hid
      refine .of_reading_stay ?_
      refine .of_reading_stay ?_
      split
      · refine .of_reading_stay ?_
        refine (h.alloc _ (by simp [Object.bare]) (by simp [Object.bare]) m hm).bind
          fun fresh m' _ hm' hk _ => ?_
        refine (hi _ _ _ _ m' hm' (hk id hcallable)).bind fun result m₁ _ hm₁ _ _ => ?_
        exact h.pure _ m₁ hm₁
      · exact hi _ _ _ _ m hm hcallable

theorem meets_callClosure {f g : Invoke}
    (hc : SameCalls .stay (jumpContract.Meets .stay) f g) (fuel : Nat)
    {k : Function} (hk : k.WellNested) (home : ScopeId) (receiver : Value) (args : List Value) :
    jumpContract.Meets .stay (callClosure f fuel k home receiver args)
      (callClosure g fuel k home receiver args) := by
  have h : LoopCongruence Function.WellNested .stay (jumpContract.Meets .stay) :=
    Contract.loopCongruence outOfFuel_meets_jumpContract
  obtain ⟨hjumps, hinner⟩ := hk
  obtain ⟨name, params, ⟨o, statements⟩⟩ := k
  refine h.bind (h.addScope _) fun scope => ?_
  have hparams := bindParams_congr h.toCongruence scope params args
  have hbody := h.inScope scope (runBody_congr h.stmt hc statements hinner (fun _ _ => trivial)
    (fun _ _ _ _ => trivial) fun _ _ => ⟨(rfl : fuel = fuel), h.toLooping⟩)
  rw [Relocation.ident_stay, List.map_id] at hparams
  rw [Stmt.relocateAll_stay] at hbody
  refine h.bind hparams fun _ => ?_
  have hyields : Yields (inScope scope (runBody f fuel statements))
    (Surroundings.functionBody.take ·) :=
    yields_inScope (yields_seq fun _ => Stmt.runAll_yields f fuel _ none statements hjumps) scope
  intro m hm
  refine (hbody m hm).bind fun c m' hr hm' _ _ => ?_
  have htaken := hyields m c m' hr
  cases c with
  | normal | giveBack => exact h.pure _ m' hm'
  | leave | skip => cases htaken

theorem meetsAt_activation {f g : Invoke} (hi : SameOnCallables f g) (fuel : Nat) (id : ObjectId)
    (receiver : Value) (args : List Value) {m : Machine} (hm : m.WellNested)
    (hcallable : (m.heap.object id).kind.isCallable) :
    jumpContract.MeetsAt .stay m (activation f fuel id receiver args)
      (activation g fuel id receiver args) := by
  have h : Congruence Function.WellNested .stay (jumpContract.Meets .stay) := Contract.congruence
  have hc := sameCalls_of_callables hi
  refine .of_reading_stay ?_
  have hnested := hm id
  split
  next k home hkind =>
    rw [hkind] at hnested
    exact meets_callClosure hc fuel hnested home receiver args m hm
  next name native hkind =>
    rw [hkind] at hnested
    refine h.runNative hc native receiver args (fun host hhost => ?_) m hm
    subst hhost
    cases hnested
  next hclosure hnative =>
    cases hkind : (m.heap.object id).kind with
    | closure k home => exact absurd hkind (hclosure k home)
    | native name native => exact absurd hkind (hnative name native)
    | plain | array | error =>
      rw [hkind] at hcallable
      cases hcallable

/-- A monitor that goes on otherwise when an action has failed internally. -/
def afterInternal (elsewhere action : Eval Value) : Eval Value :=
  fun m =>
    match action m with
    | .error (.internal _) m' => elsewhere m'
    | ended => ended

theorem afterInternal_of_ends {elsewhere action : Eval Value} {m : Machine}
    (h : jumpContract.Ends m (action m)) : afterInternal elsewhere action m = action m := by
  unfold afterInternal
  split
  next c m' hr => exact absurd rfl (h.2.2 _ m' hr c)
  next => rfl

theorem sameOnCallables_invoke (elsewhere : Eval Value) (fuel : Nat) :
    SameOnCallables (invoke fuel) (monitored (afterInternal elsewhere) fuel) := by
  induction fuel with
  | zero => exact fun _ _ _ _ m hm _ =>
    Contract.meets_throw outOfFuel_meets_jumpContract m hm
  | succ fuel ih =>
    intro id receiver args frame m hm hcallable
    refine .entering hm frame fun _ => ?_
    have hmeets := meetsAt_activation ih fuel id receiver args
      (m := { m with frames := frame :: m.frames }) hm hcallable
    have hend := hmeets.ends
    rw [← hmeets.eq fun _ _ h => h] at hend
    exact hmeets.congr_right (afterInternal_of_ends hend)

theorem meets_program_of_wellNested {program : Block} (hprogram : program.WellNested)
    (elsewhere : Eval Value) (fuel : Nat) (m : Machine) (hm : m.WellNested) :
    runProgramWith (monitored (afterInternal elsewhere) fuel) fuel program m =
      runProgram fuel program m ∧ jumpContract.Ends m.atRest (runProgram fuel program m) := by
  have h : LoopCongruence Function.WellNested .stay (jumpContract.Meets .stay) :=
    Contract.loopCongruence outOfFuel_meets_jumpContract
  have hc := sameCalls_of_callables (sameOnCallables_invoke elsewhere fuel)
  obtain ⟨o, statements⟩ := program
  obtain ⟨hjumps, hfunctions⟩ := hprogram
  have hyields : Yields (runBody (invoke fuel) fuel statements) (Surroundings.program.take ·) :=
    yields_seq fun _ => Stmt.runAll_yields _ fuel _ none statements hjumps
  have hbody := runBody_congr h.stmt hc statements hfunctions (fun _ _ => trivial)
    (fun _ _ _ _ => trivial) fun _ _ => ⟨(rfl : fuel = fuel), h.toLooping⟩
  rw [Stmt.relocateAll_stay] at hbody
  have hrun : jumpContract.MeetsAt .stay m.atRest
      (runBody (invoke fuel) fuel statements >>= (·.expectNormal .program))
      (runBody (monitored (afterInternal elsewhere) fuel) fuel statements >>=
        (·.expectNormal .program)) := by
    refine (hbody m.atRest hm).bind fun c m' hr hm' _ _ => ?_
    have htaken := hyields m.atRest c m' hr
    cases c with
    | normal => exact h.pure _ m' hm'
    | leave | skip | giveBack => cases htaken
  exact ⟨hrun.eq fun _ _ h => h, hrun.ends⟩

end Eval

/-- The machines between well-nested programs that run one after the other. -/
inductive Machine.Session : Machine → Prop where
  | start (prelude : Bool) (maxCallDepth : Option UInt64) :
      Session (Machine.start prelude maxCallDepth)
  | program {m : Machine} (hm : Session m) {program : Block} (hprogram : program.WellNested)
      (fuel : Nat) : Session (Eval.final (Eval.runProgram fuel program m))

open Eval

theorem Machine.Session.wellNested {m : Machine} (hm : m.Session) : m.WellNested := by
  induction hm with
  | start prelude maxCallDepth => exact start_admits _ prelude maxCallDepth
  | program _ hprogram fuel ih =>
    exact (meets_program_of_wellNested hprogram (pure .undefined) fuel _ ih).2.1

/-- A well-nested program that runs after well-nested programs does not fail internally, and it is
the same whatever would be done after an internal failure of a call in it. -/
theorem jumps_never_escape {m : Machine} (hm : m.Session) {program : Block}
    (hprogram : program.WellNested) (fuel : Nat) :
    (∀ c m', runProgram fuel program m ≠ .error (.internal c) m') ∧
    ∀ elsewhere, runProgramWith (monitored (afterInternal elsewhere) fuel) fuel program m =
      runProgram fuel program m := by
  have hmeets (elsewhere : Eval Value) :=
    meets_program_of_wellNested hprogram elsewhere fuel m hm.wellNested
  refine ⟨fun c m' hr => ?_, fun elsewhere => (hmeets elsewhere).1⟩
  exact (hmeets (pure .undefined)).2.2.2 _ m' hr c rfl

/-- The function `f` leaves a loop and returns; it is declared by one program and called by the
next. -/
theorem jumps_never_escape_two_programs :
    let body : Block :=
      .mk default [.whileLoop default (.bool default true) (.breakLoop default),
        .giveBack default none]
    let declares : Block := .mk default [.function default ⟨"f", default⟩ (.mk none [] body)]
    let calls : Block :=
      .mk default [.expression default (.call default (.identifier default "f") [])]
    ∀ c m', runProgram 9 calls (final (runProgram 9 declares (Machine.start true none))) ≠
      .error (.internal c) m' := by
  intro body declares calls
  have hf : (Function.mk none [] body).WellNested := by
    refine .intro rfl fun g hg => ?_
    cases hg
  have hdeclares : declares.WellNested := by
    refine ⟨rfl, fun g hg => ?_⟩
    cases List.mem_singleton.mp hg
    exact hf
  have hcalls : calls.WellNested := ⟨rfl, fun g hg => nomatch hg⟩
  exact (jumps_never_escape (.program (.start true none) hdeclares 9) hcalls 9).1

end ScriptEngine
