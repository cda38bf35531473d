import Mathlib.Data.List.Basic
import ScriptEngine.Evaluation.Statement

/-!
# Switch is scan, then fall through

Running a switch interleaves the search for the arm to begin with and the running of arms. The two
can be pulled apart: the tests are evaluated first, up to the arm to begin with, and the statements
of that arm and of all arms behind it run as one list. What the tests and the statements do is
arbitrary, so this is an equation between actions on the machine.
-/

namespace ScriptEngine

open Eval

def SwitchCase.body : SwitchCase → List Stmt
  | .mk _ body => body

def Completion.endSwitch : Completion → Completion
  | .normal _ | .leave => .undefined
  | .skip => .skip
  | .giveBack v => .giveBack v

variable (invoke : Invoke) (fuel : Nat)

/-- The arms from the first that is the default or whose test equals a value strictly, and none if
there is no such arm. The tests are evaluated in order and up to that arm. -/
def SwitchCase.select (v : Value) : List SwitchCase → Eval (List SwitchCase)
  | [] => return []
  | .mk none body :: cases => return .mk none body :: cases
  | .mk (some test) body :: cases => do
    if (← test.eval invoke).strictEquals v then
      return .mk (some test) body :: cases
    else
      SwitchCase.select v cases

namespace Stmt

theorem runAll_append (last : Option Value) (ss ts : List Stmt) :
    runAll invoke fuel last (ss ++ ts) = do
      match ← runAll invoke fuel last ss with
      | .normal value => runAll invoke fuel value ts
      | jump => return jump := by
  induction ss generalizing last with
  | nil => rfl
  | cons s ss ih =>
    simp only [List.cons_append, runAll, bind_assoc]
    refine bind_congr fun ended => ?_
    cases ended with
    | normal value =>
      cases value with
      | none => exact ih last
      | some v => exact ih (some v)
    | _ => rfl

theorem endSwitch_runAll (last last' : Option Value) (ss : List Stmt) :
    Completion.endSwitch <$> runAll invoke fuel last ss =
      Completion.endSwitch <$> runAll invoke fuel last' ss := by
  induction ss generalizing last last' with
  | nil => rfl
  | cons s ss ih =>
    simp only [runAll, map_bind]
    refine bind_congr fun ended => ?_
    cases ended with
    | normal value =>
      cases value with
      | none => exact ih last last'
      | some v => rfl
    | _ => rfl

end Stmt

namespace SwitchCase

/-- Arms that are run without a look at their tests, as one list of statements. -/
def fallThrough (cases : List SwitchCase) : Eval Completion :=
  Completion.endSwitch <$> Stmt.runAll invoke fuel none (cases.flatMap body)

theorem fallThrough_cons (arm : SwitchCase) (cases : List SwitchCase) :
    fallThrough invoke fuel (arm :: cases) = do
      match ← Stmt.runAll invoke fuel none arm.body with
      | .normal _ => fallThrough invoke fuel cases
      | .leave => return .undefined
      | jump => return jump := by
  simp only [fallThrough, List.flatMap_cons, Stmt.runAll_append, map_bind]
  refine bind_congr fun ended => ?_
  cases ended with
  | normal value => exact Stmt.endSwitch_runAll invoke fuel value none _
  | _ => rfl

theorem runArms_matched (v : Value) (cases : List SwitchCase) :
    runArms invoke fuel v true cases = fallThrough invoke fuel cases := by
  induction cases with
  | nil => rfl
  | cons arm cases ih =>
    obtain ⟨test, body⟩ := arm
    rw [fallThrough_cons, ← ih]
    rfl

theorem runArms_eq_select (v : Value) (cases : List SwitchCase) :
    runArms invoke fuel v false cases = select invoke v cases >>= fallThrough invoke fuel := by
  induction cases with
  | nil => rfl
  | cons arm cases ih =>
    obtain ⟨test, body⟩ := arm
    cases test with
    | none =>
      -- The default begins where it stands, also before arms whose tests would be equal.
      simp only [select, pure_bind, ← runArms_matched invoke fuel v]
      rfl
    | some test =>
      simp only [runArms, reached, select, bind_assoc, pure_bind]
      refine bind_congr fun tested => ?_
      split
      next heq =>
        simp only [pure_bind, ← runArms_matched invoke fuel v, heq]
        rfl
      next heq =>
        rw [Bool.eq_false_iff.mpr heq]
        exact ih

end SwitchCase

/-- A switch evaluates its discriminant, selects its arms in a scope of its own, and runs the
statements of all of them there as one list. -/
theorem Stmt.run_switch (o : Origin) (discriminant : Expr) (cases : List SwitchCase) :
    (Stmt.switch o discriminant cases).run invoke fuel =
      (do
        let v ← discriminant.eval invoke
        inBlock do
          let arms ← SwitchCase.select invoke v cases
          match ← Stmt.runAll invoke fuel none (arms.flatMap SwitchCase.body) with
          | .normal _ | .leave => return .undefined
          | jump => return jump) := by
  simp only [Stmt.run, SwitchCase.runArms_eq_select]
  refine bind_congr fun v => congrArg inBlock ?_
  refine bind_congr fun arms => ?_
  rw [SwitchCase.fallThrough, map_eq_pure_bind]
  refine bind_congr fun ended => ?_
  cases ended <;> rfl

end ScriptEngine
