import ScriptEngine.Prelude
import ScriptEngine.Proofs.Evaluation.Permanence
import ScriptEngine.Proofs.Syntax.RoundTrip

/-!
# Internal failures surface

An internal failure of a call passes through everything around the call. Handlers take no notice of
it and nothing is run after it but last blocks, which leave it as it is if they end normally. So it
is the end of the program, unless a last block ends otherwise and its end takes the place of the
failure.

Such a block is singled out by another way to finish, which stops the run there: the failure has
been replaced if that makes a difference. A program may fail internally more than once, for the same
cause, if the failures are replaced or if the last block of one fails itself. The number of scopes,
which only grows, tells them apart, and the last blocks of a failure are run without regard to what
fails in them.
-/

namespace ScriptEngine

namespace Eval

/-- An internal failure for a cause, when there are `k` scopes or more. -/
def isLate (c : InternalCause) (k : Nat) (c' : InternalCause) (m : Machine) : Bool :=
  c' = c && k ≤ m.scopes.size

def afterFailure (c : InternalCause) (k : Nat) (elsewhere action : Eval Value) : Eval Value :=
  fun m =>
    match action m with
    | .error (.internal c') m' => if isLate c k c' m' then elsewhere m'
        else .error (.internal c') m'
    | ended => ended

/-- Some call that a program makes fails internally for a cause, when there are `k` scopes or more:
what is done after such calls makes a difference. -/
def FailsWithin (c : InternalCause) (k fuel : Nat) (program : Block) (m : Machine) : Prop :=
  ∃ elsewhere, runProgramWith (monitored (afterFailure c k elsewhere) fuel) fuel program m ≠
    runProgram fuel program m

def endsNormally : EStateM.Result Failure Machine Completion → Bool
  | .ok (.normal _) _ => true
  | _ => false

/-- Finishes as the evaluator does, up to such a failure. While that is pending the last block runs
as in the evaluator, and the run is stopped if the block does not end normally. -/
def finishingUpTo (c : InternalCause) (k : Nat) (action last plain : Eval Completion) :
    Eval Completion :=
  fun m =>
    match action m with
    | .error (.internal c') m' =>
      if isLate c k c' m' then
        if endsNormally (plain m') then .error (.internal c') (final (plain m'))
        else .error .outOfFuel m'
      else finalizing action (some last) m
    | _ => finalizing action (some last) m

/-- In the run of a program, the end of a last block takes the place of the first internal failure
for a cause when there are `k` scopes or more. -/
def Replaced (c : InternalCause) (k fuel : Nat) (program : Block) (m : Machine) : Prop :=
  runProgramInWays (.finishing (finishingUpTo c k)) fuel program m ≠ runProgram fuel program m

theorem isLate_iff {c c' : InternalCause} {k : Nat} {m : Machine} :
    isLate c k c' m = true ↔ c' = c ∧ k ≤ m.scopes.size := by
  simp [isLate]

theorem endsNormally_iff {r : EStateM.Result Failure Machine Completion} :
    endsNormally r = true ↔ ∃ v m, r = .ok (.normal v) m := by
  unfold endsNormally
  split
  next v m => simp
  next hne =>
    simp only [Bool.false_eq_true, false_iff]
    rintro ⟨v, m, rfl⟩
    exact hne v m rfl

section Finishing

variable {c : InternalCause} {k : Nat} {action last plain : Eval Completion} {m m' : Machine}

theorem finishingUpTo_of_late (hfails : action m = .error (.internal c) m')
    (hlate : k ≤ m'.scopes.size) :
    finishingUpTo c k action last plain m =
      if endsNormally (plain m') then .error (.internal c) (final (plain m'))
      else .error .outOfFuel m' := by
  simp only [finishingUpTo, hfails, isLate_iff.mpr ⟨rfl, hlate⟩, if_true]

theorem finishingUpTo_of_not_late
    (h : ∀ m', action m = .error (.internal c) m' → ¬k ≤ m'.scopes.size) :
    finishingUpTo c k action last plain m = finalizing action (some last) m := by
  unfold finishingUpTo
  split
  next c' m' hfails =>
    rw [if_neg]
    rw [isLate_iff]
    rintro ⟨rfl, hlate⟩
    exact h m' hfails hlate
  next => rfl

end Finishing

section Agreement

variable {ways : Ways} {E : Failure → Nat → Prop}

theorem agree_finalizing {x y last last' : Eval Completion} (hlast : AgreeUnless E last last')
    {m : Machine} (hsame : y m = x m) :
    finalizing y (some last') m = finalizing x (some last) m ∨
      ∃ e m', finalizing x (some last) m = .error e m' ∧ E e m'.scopes.size := by
  cases hxm : x m with
  | ok a m' =>
    rw [finalizing_of_ok hxm, finalizing_of_ok (hsame.trans hxm)]
    exact (hlast.bind fun _ => .refl _) m'
  | error e m' =>
    by_cases he : e = .outOfFuel
    · subst he
      rw [finalizing_of_outOfFuel hxm, finalizing_of_outOfFuel (hsame.trans hxm)]
      exact .inl rfl
    · rw [finalizing_of_error he hxm, finalizing_of_error he (hsame.trans hxm)]
      exact (hlast.bind fun _ => .refl _) m'

section Bodies

variable {f g : Invoke} {fuel : Nat}
variable (h : WaysCongruence ways f g fuel fuel (fun _ => True) (fun _ => True) (fun _ => True)
  .stay (AgreeUnless E))
variable (hc : SameCalls .stay (AgreeUnless E) f g)

include h hc

theorem agree_body (statements : List Stmt) :
    AgreeUnless E (runBodyWith ways f fuel statements) (runBody g fuel statements) := by
  have hbody := runBodyWith_congr h hc statements (fun _ _ => trivial) (fun _ _ => trivial)
    (fun _ _ _ _ => trivial) fun _ _ => ⟨rfl, AgreeUnless.looping⟩
  rwa [Stmt.relocateAll_stay] at hbody

theorem agree_activation (id : ObjectId) (receiver : Value) (args : List Value) :
    AgreeUnless E (activationWith f fuel (fun _ _ => ways) id receiver args)
      (activation g fuel id receiver args) := by
  refine .bind (.refl _) fun kind => ?_
  cases kind with
  | closure k home =>
    show AgreeUnless E (callClosureWith ways f fuel k home receiver args) _
    refine .bind (.refl _) fun scope => .bind (.refl _) fun _ => ?_
    exact .bind ((agree_body h hc _).inScope scope) fun _ => .refl _
  | native name native =>
    refine AgreeUnless.native.runNative hc native receiver args fun host _ => ?_
    exact AgreeUnless.native.runHost hc Frame.relocate_stay (fun _ => .refl _) host receiver args
  | plain | array | error => exact .refl _

end Bodies

variable {watch : Eval Value → Eval Value}
variable (h : ∀ fuel, WaysCongruence ways (invokeWith (fun _ _ => ways) fuel) (monitored watch fuel)
  fuel fuel (fun _ => True) (fun _ => True) (fun _ => True) .stay (AgreeUnless E))
variable (hwatch : ∀ x y, AgreeUnless E x y → AgreeUnless E x (watch y))

include h hwatch

theorem agree_calls (fuel : Nat) :
    SameCalls .stay (AgreeUnless E) (invokeWith (fun _ _ => ways) fuel) (monitored watch fuel) := by
  refine AgreeUnless.sameCalls fun id receiver args frame => ?_
  induction fuel generalizing id receiver args frame with
  | zero => exact .refl _
  | succ fuel ih =>
    have hactive := agree_activation (h fuel) (AgreeUnless.sameCalls ih) id receiver args
    exact (hwatch _ _ hactive).entering frame

theorem agree_program (fuel : Nat) (program : Block) :
    AgreeUnless E (runProgramInWays ways fuel program)
      (runProgramWith (monitored watch fuel) fuel program) := by
  refine .bind (.refl _) fun _ => ?_
  exact .bind (agree_body (h fuel) (agree_calls h hwatch fuel) program.statements) fun _ => .refl _

end Agreement

theorem runProgramInWays_own (fuel : Nat) (program : Block) :
    runProgramInWays .own fuel program = runProgram fuel program := by
  have hsame := agree_program (fun _ => own_same) (fun _ _ h => h) fuel program
  rw [monitored_id] at hsame
  exact hsame.eq

/-- The failures that a last block passes on or stops at. -/
def Passes (c : InternalCause) (k : Nat) : Failure → Nat → Prop
  | .outOfFuel, _ => True
  | .internal c', size => c' = c ∧ k ≤ size
  | .thrown _, _ => False

variable {c : InternalCause} {k : Nat}

theorem agree_finishingUpTo_of_not_late {E : Failure → Nat → Prop}
    (hE : ∀ e size, E e size → Passes c k e size) {x y last last' : Eval Completion}
    (hx : AgreeUnless E x y) (hlast : AgreeUnless E last last')
    (plain : Eval Completion) {m : Machine}
    (hlate : ∀ m', x m = .error (.internal c) m' → ¬k ≤ m'.scopes.size) :
    finalizing y (some last') m = finishingUpTo c k x last plain m ∨
      ∃ e m', finishingUpTo c k x last plain m = .error e m' ∧ E e m'.scopes.size := by
  rw [finishingUpTo_of_not_late hlate]
  rcases hx m with hsame | ⟨e, m', hfails, he⟩
  · exact agree_finalizing hlast hsame
  · have hpasses := hE e _ he
    cases e with
    | thrown t => exact absurd hpasses id
    | outOfFuel =>
      rw [finalizing_of_outOfFuel hfails]
      exact .inr ⟨_, m', rfl, he⟩
    | internal c' =>
      obtain ⟨rfl, hsize⟩ := hpasses
      exact absurd hsize (hlate m' hfails)

theorem finishes_unless_stopped (f : Invoke) (fuel : Nat) :
    WaysCongruence (.finishing (finishingUpTo c k)) f (monitored (fun action => action) fuel) fuel
      fuel (fun _ => True) (fun _ => True) (fun _ => True) .stay
      (AgreeUnless fun e _ => e = .outOfFuel) where
  toBodyCongruence := AgreeUnless.body nofun
  look _ := .refl _
  finishing {x y} hx b hlast := by
    rw [Block.relocate_stay, monitored_id] at hlast ⊢
    intro m
    by_cases hlate : ∃ m', x m = .error (.internal c) m' ∧ k ≤ m'.scopes.size
    · -- the last block is run as in the evaluator, from the same machine
      obtain ⟨m', hfails, hlate⟩ := hlate
      have hsame : y m = .error (.internal c) m' := by
        rcases hx m with hsame | ⟨_, _, hstops, rfl⟩
        · exact hsame.trans hfails
        · cases hfails.symm.trans hstops
      show _ = finishingUpTo c k x _ _ m ∨ ∃ e m', finishingUpTo c k x _ _ m = .error e m' ∧ _
      rw [finishingUpTo_of_late hfails hlate, finalizing_of_error (e := .internal c) nofun hsame]
      split
      next hnormal =>
        obtain ⟨v, m'', hnormal⟩ := endsNormally_iff.mp hnormal
        left
        simp only [Bind.bind, EStateM.bind, hnormal]
        rfl
      next => exact .inr ⟨_, m', rfl, rfl⟩
    · refine agree_finishingUpTo_of_not_late (fun e _ he => ?_) hx hlast _ fun m' hfails hsize =>
        hlate ⟨m', hfails, hsize⟩
      subst he
      trivial

theorem size_le_of_block (fuel : Nat) (b : Block) (m : Machine) :
    m.scopes.size ≤ (final (inBlock (b.runBody (invoke fuel) fuel) m)).scopes.size := by
  have hretains := retains_activity (fun _ => false) fuel fuel (.block b) m
  rw [monitored_never, Activity.run] at hretains
  exact hretains.scopes.size_le

theorem finishes_passing (f g : Invoke) (fuel : Nat) :
    WaysCongruence (.finishing (finishingUpTo c k)) f g fuel fuel (fun _ => True) (fun _ => True)
      (fun _ => True) .stay (AgreeUnless (Passes c k)) where
  toBodyCongruence := AgreeUnless.body fun _ _ h => h
  look _ := .refl _
  finishing {x y} hx b hlast := by
    intro m
    by_cases hlate : ∃ m', x m = .error (.internal c) m' ∧ k ≤ m'.scopes.size
    · obtain ⟨m', hfails, hlate⟩ := hlate
      right
      show ∃ e m', finishingUpTo c k x _ _ m = .error e m' ∧ _
      rw [finishingUpTo_of_late hfails hlate]
      split
      next => exact ⟨_, _, rfl, rfl, hlate.trans (size_le_of_block fuel b m')⟩
      next => exact ⟨_, m', rfl, trivial⟩
    · exact agree_finishingUpTo_of_not_late (fun _ _ h => h) hx hlast _ fun m' hfails hsize =>
        hlate ⟨m', hfails, hsize⟩

theorem agree_afterFailure (elsewhere : Eval Value) {x y : Eval Value}
    (h : AgreeUnless (Passes c k) x y) :
    AgreeUnless (Passes c k) x (afterFailure c k elsewhere y) := by
  intro m
  rcases h m with hsame | hfails
  · cases hxm : x m with
    | ok a m' =>
      left
      simp only [afterFailure, hsame, hxm]
    | error e m' =>
      cases e with
      | internal c' =>
        by_cases hlate : isLate c k c' m' = true
        · exact .inr ⟨.internal c', m', rfl, isLate_iff.mp hlate⟩
        · left
          simp only [afterFailure, hsame, hxm, if_neg hlate]
      | thrown | outOfFuel =>
        left
        simp only [afterFailure, hsame, hxm]
  · exact .inr hfails

section Stopping

variable {fuel : Nat} {program : Block} {m : Machine}
variable (hends : ∀ m', runProgram fuel program m ≠ .error .outOfFuel m')

include hends

theorem failsWithin_of_runsOut
    (h : runsOut (runProgramWith (monitored (afterFailure c k (throw .outOfFuel)) fuel) fuel program
      m) = true) : FailsWithin c k fuel program m := by
  refine ⟨throw .outOfFuel, fun hsame => ?_⟩
  rw [hsame, not_runsOut_iff.mpr hends] at h
  cases h

/-- A failure is replaced if and only if the run that is stopped there runs out of fuel. -/
theorem replaced_iff :
    Replaced c k fuel program m ↔
      runsOut (runProgramInWays (.finishing (finishingUpTo c k)) fuel program m) = true := by
  have hagree := agree_program (fun _ => finishes_unless_stopped (c := c) (k := k) _ _)
    (fun _ _ h => h) fuel program m
  rw [monitored_id] at hagree
  rw [runsOut_iff]
  constructor
  · intro hreplaced
    rcases hagree with hsame | ⟨e, m', hstops, rfl⟩
    · exact absurd hsame.symm hreplaced
    · exact ⟨m', hstops⟩
  · rintro ⟨m', hstops⟩ hsame
    exact hends m' (hsame.symm.trans hstops)

end Stopping

end Eval

open Eval

/-- If a call that a program makes fails internally, when there are `k` scopes or more, and no last
block takes the place of the first such failure, the program fails for the same cause. -/
theorem internal_failures_surface {c : InternalCause} {k fuel : Nat} {program : Block} {m : Machine}
    (hends : ∀ m', runProgram fuel program m ≠ .error .outOfFuel m')
    (hcall : FailsWithin c k fuel program m) (hkept : ¬Replaced c k fuel program m) :
    ∃ m', runProgram fuel program m = .error (.internal c) m' := by
  obtain ⟨elsewhere, hdiffers⟩ := hcall
  have hsame : runProgramInWays (.finishing (finishingUpTo c k)) fuel program m =
    runProgram fuel program m :=
    Classical.byContradiction hkept
  have hagree := agree_program (fun _ => finishes_passing (c := c) (k := k) _ _ _)
    (fun _ _ => agree_afterFailure elsewhere) fuel program m
  rcases hagree with hagree | ⟨e, m', hfails, hpasses⟩
  · exact absurd (hagree.trans hsame) hdiffers
  · rw [hsame] at hfails
    cases e with
    | thrown t => exact absurd hpasses id
    | outOfFuel => exact absurd hfails (hends m')
    | internal c' =>
      obtain rfl := hpasses.1
      exact ⟨m', hfails⟩

/-- A call fails twice. A last block that returns replaces the first failure; around the second one
there are a handler and a last block that ends normally. -/
theorem internal_failures_surface_caught :
    let source : Text.Source := ⟨"script", "function f() \x7b continue; \x7d " ++
      "function g() \x7b try \x7b f(); \x7d finally \x7b return true; \x7d \x7d g(); " ++
      "try \x7b f(); \x7d catch (e) \x7b true; \x7d finally \x7b false; \x7d"⟩
    let c : InternalCause := .escaped .skip .functionBody
    let m := Machine.start false none
    ∃ program, Program.ofSource source = .ok program ∧ FailsWithin c 7 3 program m ∧
      ¬Replaced c 7 3 program m ∧ ∃ m', runProgram 3 program m = .error (.internal c) m' := by
  intro source c m
  have hcomputed : (Program.ofSource source).toOption.map (fun program =>
      (runsOut (runProgram 3 program m),
        runsOut (runProgramWith (monitored (afterFailure c 7 (throw .outOfFuel)) 3) 3 program m),
        runsOut (runProgramInWays (.finishing (finishingUpTo c 7)) 3 program m))) =
      some (false, true, false) := by
    decide +kernel
  obtain ⟨program, hprogram, hruns⟩ := Program.exists_of_map hcomputed
  simp only [Prod.mk.injEq] at hruns
  obtain ⟨hends, hstops, hpasses⟩ := hruns
  rw [not_runsOut_iff] at hends
  have hcall := failsWithin_of_runsOut hends hstops
  have hkept : ¬Replaced c 7 3 program m := by
    rw [replaced_iff hends, hpasses]
    nofun
  exact ⟨program, hprogram, hcall, hkept, internal_failures_surface hends hcall hkept⟩

def Eval.endsTrue : EStateM.Result Failure Machine Value → Bool
  | .ok (.bool true) _ => true
  | _ => false

theorem Eval.endsTrue_iff {r : EStateM.Result Failure Machine Value} :
    endsTrue r = true ↔ ∃ m, r = .ok (.bool true) m := by
  unfold endsTrue
  split
  next m => simp
  next hne =>
    simp only [Bool.false_eq_true, false_iff]
    rintro ⟨m, rfl⟩
    exact hne m rfl

/-- A last block that returns takes the place of a failure, and the program ends with its value. -/
theorem last_block_replaces_internal_failure :
    let source : Text.Source := ⟨"script", "function f() \x7b continue; \x7d " ++
      "function g() \x7b try \x7b f(); \x7d finally \x7b return true; \x7d \x7d g();"⟩
    let c : InternalCause := .escaped .skip .functionBody
    let m := Machine.start false none
    ∃ program, Program.ofSource source = .ok program ∧ FailsWithin c 0 3 program m ∧
      ∃ m', runProgram 3 program m = .ok (.bool true) m' := by
  intro source c m
  have hcomputed : (Program.ofSource source).toOption.map (fun program =>
      (runsOut (runProgramWith (monitored (afterFailure c 0 (throw .outOfFuel)) 3) 3 program m),
        endsTrue (runProgram 3 program m))) = some (true, true) := by
    decide +kernel
  obtain ⟨program, hprogram, hruns⟩ := Program.exists_of_map hcomputed
  simp only [Prod.mk.injEq] at hruns
  obtain ⟨hstops, hvalue⟩ := hruns
  obtain ⟨m', hr⟩ := endsTrue_iff.mp hvalue
  have hcall : FailsWithin c 0 3 program m := failsWithin_of_runsOut (by simp [hr]) hstops
  exact ⟨program, hprogram, hcall, m', hr⟩

end ScriptEngine
