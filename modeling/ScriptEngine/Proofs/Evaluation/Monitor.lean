import ScriptEngine.Proofs.Evaluation.Contract
import ScriptEngine.Proofs.Evaluation.Traversal

/-!
# Monitored runs

A monitor stands between the frame of a call and what the call does in it, for every call of a run.
It can look at the machine before and after and act otherwise, so a monitor that changes no run says
something about all calls that the run makes, however deep.
-/

namespace ScriptEngine

def Machine.atRest (m : Machine) : Machine :=
  { m with current := 0, frames := [], joining := [] }

namespace Eval

/-- Calls a function object with a monitor around what happens in its frame and in all frames above
it. -/
def monitored (watch : Eval Value → Eval Value) : Nat → Invoke
  | 0 => fun _ _ _ _ => throw .outOfFuel
  | fuel + 1 => fun id receiver args frame =>
    entering frame (watch (activation (monitored watch fuel) fuel id receiver args))

theorem monitored_id (fuel : Nat) : monitored (fun action => action) fuel = invoke fuel := by
  induction fuel with
  | zero => rfl
  | succ fuel ih => simp only [monitored, invoke, ih]

/-- Something that the evaluator is asked to do, with the type of its result. -/
inductive Activity : Type → Type where
  | expression (e : Expr) : Activity Value
  | statement (s : Stmt) : Activity Completion
  | statements (ss : List Stmt) : Activity Completion
  | body (ss : List Stmt) : Activity Completion
  | block (b : Block) : Activity Completion
  | value (callee receiver : Value) (args : List Value) : Activity Value
  | call (id : ObjectId) (receiver : Value) (args : List Value) (frame : Frame) : Activity Value

namespace Activity

def run (invoke : Invoke) (rounds : Nat) {α : Type} : Activity α → Eval α
  | expression e => e.eval invoke
  | statement s => s.run invoke rounds
  | statements ss => Stmt.runAll invoke rounds none ss
  | body ss => runBody invoke rounds ss
  | block b => inBlock (b.runBody invoke rounds)
  | value callee receiver args => callValue invoke callee receiver args
  | call id receiver args frame => invoke id receiver args frame

def functions {α : Type} : Activity α → List Function
  | expression e => e.functions
  | statement s => s.functions
  | statements ss => Stmt.functionsOf ss
  | body ss => Stmt.functionsOf ss
  | block b => b.functions
  | value _ _ _ => []
  | call _ _ _ _ => []

variable {P : Function → Prop} {R : ∀ {α : Type}, Eval α → Eval α → Prop} {f g : Invoke}

theorem run_congr (h : LoopCongruence P .stay R)
    (hi : ∀ id receiver args frame, R (f id receiver args frame) (g id receiver args frame))
    (rounds : Nat) {α : Type} (a : Activity α) (hp : ∀ k ∈ a.functions, P k) :
    R (a.run f rounds) (a.run g rounds) := by
  have hc : SameCalls .stay R f g := h.sameCalls hi
  have hw (names : List String) : ∀ x ∈ names, True := fun _ _ => trivial
  have hv (parts : List Stmt) : ∀ t ∈ parts, ∀ x ∈ t.hoistedNames, True := fun _ _ _ _ => trivial
  have hl (loops : List Stmt) : ∀ l ∈ loops, rounds = rounds ∧ Looping .stay R :=
    fun _ _ => ⟨rfl, h.toLooping⟩
  cases a with
  | expression e => simpa [run] using Expr.eval_congr h.stmt.toExprCongruence hc e hp (hw _)
  | statement s => simpa [run] using Stmt.run_congr h.stmt hc s hp (hw _) (hv _) (hl _)
  | statements ss => simpa [run] using Stmt.runAll_congr h.stmt hc none ss hp (hw _) (hv _) (hl _)
  | body ss => simpa [run] using runBody_congr h.stmt hc ss hp (hw _) (hv _) (hl _)
  | block b =>
    have hbody := Block.runBody_congr h.stmt hc b hp (hw _) (hv _) (hl _)
    exact h.inBlock (by simpa using hbody)
  | value callee receiver args => exact hc.value callee receiver args
  | call id receiver args frame => exact hi id receiver args frame

end Activity

namespace Contract

variable {C : Contract (fun _ => True)} {ρ : Relocation}

theorem meetsAt_activation {f g : Invoke} (hc : SameCalls ρ (C.Meets ρ) f g)
    (hfuel : C.fails .outOfFuel) (hinternal : ∀ c, C.fails (.internal c)) {m : Machine}
    (hm : C.holds m) (callee : ObjectId)
    (hhost : ∀ name host, (m.heap.object callee).kind = .native name (.host host) →
      Frame.relocate ρ = id)
    (fuel : Nat) (receiver : Value) (args : List Value) :
    C.MeetsAt ρ m (activation f fuel callee receiver args)
      (activation g fuel callee receiver args) := by
  have h : LoopCongruence (fun _ => True) ρ (C.Meets ρ) := loopCongruence hfuel
  have hfail {α : Type} (c : InternalCause) :
      C.Meets ρ (throw (.internal c) : Eval α) (throw (.internal c)) :=
    meets_throw (hinternal c)
  refine .of_reading ?_
  rw [Machine.heap_relocate, Heap.object_relocate, Object.kind_relocate]
  cases hkind : (m.heap.object callee).kind with
  | closure k home =>
    exact callClosure_congr h.toCongruence hc hfail k (fun _ _ => trivial)
      (fun _ _ => ⟨rfl, h.toLooping⟩) home receiver args m hm
  | native name native =>
    refine h.runNative hc native receiver args (fun host hnative => ?_) m hm
    exact h.runHost hc (hhost name host (hnative ▸ hkind)) hfail host receiver args
  | plain | array | error => exact hfail _ m hm

section Monitors

variable (hfuel : C.fails .outOfFuel) (hinternal : ∀ c, C.fails (.internal c))
variable {watch watch' : Eval Value → Eval Value}
variable (hwatch : ∀ x y m, C.holds m → C.MeetsAt .stay m x y →
  C.MeetsAt .stay m (watch x) (watch' y))

include hfuel hinternal hwatch

theorem meets_monitored (fuel : Nat) (callee : ObjectId) (receiver : Value) (args : List Value)
    (frame : Frame) :
    C.Meets .stay (monitored watch fuel callee receiver args frame)
      (monitored watch' fuel callee receiver args frame) := by
  induction fuel generalizing callee receiver args frame with
  | zero => exact meets_throw hfuel
  | succ fuel ih =>
    have hc : SameCalls .stay (C.Meets .stay) (monitored watch fuel) (monitored watch' fuel) :=
      congruence.sameCalls ih
    refine fun m hm => .entering hm frame fun hlimit => ?_
    have hcalled := C.call frame hm hlimit
    refine hwatch _ _ _ hcalled ?_
    exact meetsAt_activation hc hfuel hinternal hcalled callee
      (fun _ _ _ => Frame.relocate_stay) fuel
      receiver args

theorem meets_activity (fuel rounds : Nat) {α : Type} (a : Activity α) :
    C.Meets .stay (a.run (monitored watch fuel) rounds) (a.run (monitored watch' fuel) rounds) :=
  a.run_congr (loopCongruence hfuel) (meets_monitored hfuel hinternal hwatch fuel) rounds
    fun _ _ => trivial

theorem meetsAt_program (fuel : Nat) (program : Block) {m : Machine} (hm : C.holds m.atRest) :
    C.MeetsAt .stay m.atRest (runProgramWith (monitored watch fuel) fuel program)
      (runProgramWith (monitored watch' fuel) fuel program) := by
  have hbody := meets_activity hfuel hinternal hwatch fuel fuel (.body program.statements)
  have hrun : C.Meets .stay
      (runBody (monitored watch fuel) fuel program.statements >>= (·.expectNormal .program))
      (runBody (monitored watch' fuel) fuel program.statements >>= (·.expectNormal .program)) := by
    refine meets_bind hbody fun c => ?_
    cases c with
    | normal => exact meets_pure _
    | leave | skip | giveBack => exact meets_throw (hinternal _)
  obtain ⟨hagree, hend, hretains⟩ := hrun m.atRest hm
  exact ⟨hagree, hend, hretains⟩

end Monitors

end Contract

end Eval

end ScriptEngine
