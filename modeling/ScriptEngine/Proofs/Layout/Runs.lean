import ScriptEngine.Proofs.Evaluation.Admission
import ScriptEngine.Proofs.Evaluation.Monitor

/-!
# Programs in other places

Of all that a run can call, host functions alone see where a call was made. Without them a program
that is moved does what it did before, on a machine whose closures and frames are moved in the same
way.
-/

namespace ScriptEngine

namespace Eval

open Machine

def builtinContract : Contract (fun _ => True) where
  holds := Admits fun _ => True
  keeps _ _ := True
  fails _ := True
  refl _ := trivial
  trans _ _ := trivial
  change hm hc _ := ⟨hm.change hc, trivial⟩
  enter _ hm := hm
  leave _ _ hm' _ := ⟨hm', trivial⟩
  join _ hm := hm
  joined _ _ hm' _ := ⟨hm', trivial⟩
  call _ hm _ := hm
  returned _ _ hm' _ := ⟨hm', trivial⟩
  thrown _ _ := trivial
  excuses _ _ := False
  excuses_retains _ h _ := h

variable (ρ : Relocation)

theorem meets_invoke (fuel : Nat) (callee : ObjectId) (receiver : Value) (args : List Value)
    (frame : Frame) :
    builtinContract.Meets ρ (invoke fuel callee receiver args frame)
      (invoke fuel callee receiver args (frame.relocate ρ)) := by
  induction fuel generalizing callee receiver args frame with
  | zero => exact Contract.meets_throw trivial
  | succ fuel ih =>
    have hc : SameCalls ρ (builtinContract.Meets ρ) (invoke fuel) (invoke fuel) :=
      Contract.congruence.sameCalls ih
    refine fun m hm => .entering hm frame fun hlimit => ?_
    have hcalled := builtinContract.call frame hm hlimit
    refine Contract.meetsAt_activation hc trivial (fun _ => trivial) hcalled callee ?_ fuel receiver
      args
    intro name host hkind
    have hadmitted := hcalled callee
    rw [hkind] at hadmitted
    cases hadmitted

theorem runProgram_relocate (fuel : Nat) (program : Block) {m : Machine}
    (hm : m.Admits fun _ => True) :
    runProgram fuel (program.relocate ρ) (m.relocate ρ) =
      relocated ρ (runProgram fuel program m) := by
  obtain ⟨origin, statements⟩ := program
  have hc : SameCalls ρ (builtinContract.Meets ρ) (invoke fuel) (invoke fuel) :=
    Contract.congruence.sameCalls (meets_invoke ρ fuel)
  have h : LoopCongruence (fun _ => True) ρ (builtinContract.Meets ρ) :=
    Contract.loopCongruence trivial
  have hbody := runBody_congr h.stmt hc statements (fun _ _ => trivial) (fun _ _ => trivial)
    (fun _ _ _ _ => trivial) fun _ _ => ⟨(rfl : fuel = fuel), h.toLooping⟩
  have hrun : builtinContract.Meets ρ
      (runBody (invoke fuel) fuel statements >>= (·.expectNormal .program))
      (runBody (invoke fuel) fuel (Stmt.relocateAll ρ statements)
        >>= (·.expectNormal .program)) := by
    refine Contract.meets_bind hbody fun c => ?_
    cases c with
    | normal => exact Contract.meets_pure _
    | leave | skip | giveBack => exact Contract.meets_throw trivial
  exact (hrun m.atRest hm).agree.resolve_right id

theorem runProgram_forget {program program' : Block}
    (h : program'.relocate .forget = program.relocate .forget) (fuel : Nat) {m : Machine}
    (hm : m.Admits fun _ => True) :
    relocated .forget (runProgram fuel program' m) =
      relocated .forget (runProgram fuel program m) := by
  rw [← runProgram_relocate .forget fuel program' hm, h,
    runProgram_relocate .forget fuel program hm]

end Eval

end ScriptEngine
