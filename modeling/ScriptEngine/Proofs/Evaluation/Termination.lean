import ScriptEngine.Engine.Basic
import ScriptEngine.Proofs.Evaluation.Admission
import ScriptEngine.Proofs.Evaluation.StackDiscipline
import ScriptEngine.Proofs.Evaluation.Traversal

/-!
# Bounded calls terminate

Without loops only calls can go on forever, and each of them is checked against the limit on the
call depth: calls through operators, keys, constructors and the callbacks of natives included. So
the number of calls that may still become active goes down with every call, and fuel above the limit
is enough. From there on fuel makes no difference.
-/

namespace ScriptEngine

/-- The limit on the call depth leaves fewer than `n` calls to become active. -/
structure Machine.CallsLeft (n : Nat) (m : Machine) : Prop where
  admits : m.Admits Function.LoopFree
  limit : ∃ d, m.maxCallDepth = some d ∧ m.frames.length ≤ d.toNat ∧
    d.toNat < n + m.frames.length

namespace Machine.CallsLeft

variable {n : Nat} {m m' : Machine}

theorem not_zero (h : m.CallsLeft 0) : False := by
  obtain ⟨d, -, hle, hlt⟩ := h.limit
  omega

theorem succ (h : m.CallsLeft n) : m.CallsLeft (n + 1) := by
  obtain ⟨d, hd, hle, hlt⟩ := h.limit
  exact ⟨h.admits, d, hd, hle, by omega⟩

theorem of_sameStacks (h : m.CallsLeft n) (hm' : m'.Admits Function.LoopFree)
    (hframes : m'.frames = m.frames) (hlimit : m'.maxCallDepth = m.maxCallDepth) :
    m'.CallsLeft n := by
  refine ⟨hm', ?_⟩
  rw [hframes, hlimit]
  exact h.limit

theorem call (h : m.CallsLeft (n + 1)) (hlimit : Eval.atCallLimit m = false) (frame : Frame) :
    CallsLeft n { m with frames := frame :: m.frames } := by
  obtain ⟨d, hd, hle, hlt⟩ := h.limit
  simp only [Eval.atCallLimit, hd, decide_eq_false_iff_not, Nat.not_le] at hlimit
  refine ⟨h.admits, d, hd, hlimit, ?_⟩
  simp only [List.length_cons]
  omega

end Machine.CallsLeft

namespace Eval

open Machine

/-- With fewer than `n` calls left, a run does not run out of fuel and leaves as many. -/
def boundedContract (n : Nat) : Contract Function.LoopFree where
  holds := CallsLeft n
  keeps m m' := m'.frames = m.frames ∧ m'.maxCallDepth = m.maxCallDepth
  fails e := e ≠ .outOfFuel
  refl _ := ⟨rfl, rfl⟩
  trans hab hbc := ⟨hbc.1.trans hab.1, hbc.2.trans hab.2⟩
  change hm hc _ :=
    ⟨hm.of_sameStacks (hm.admits.change hc) hc.sameStacks.frames hc.sameStacks.maxCallDepth,
      hc.sameStacks.frames, hc.sameStacks.maxCallDepth⟩
  enter _ hm := ⟨hm.admits, hm.limit⟩
  leave _ _ hm' hk := ⟨⟨hm'.admits, hm'.limit⟩, hk⟩
  join _ hm := ⟨hm.admits, hm.limit⟩
  joined _ _ hm' hk := ⟨⟨hm'.admits, hm'.limit⟩, hk⟩
  call frame hm hlimit := hm.succ.call hlimit frame
  returned frame hm hm' hk := by
    have hframes : List.tail _ = _ := congrArg List.tail hk.1
    exact ⟨hm.of_sameStacks hm'.admits hframes hk.2, hframes, hk.2⟩
  thrown _ _ h := nomatch h
  excuses _ _ := False
  excuses_retains _ h _ := h

theorem bounded_succ {n : Nat} {m : Machine} {α : Type} {x y : Eval α}
    (h : (boundedContract n).MeetsAt .stay m x y) :
    (boundedContract (n + 1)).MeetsAt .stay m x y :=
  ⟨h.agree, ⟨h.ends.1.succ, h.ends.2⟩, h.retains⟩

section Bounded

variable {n : Nat} {f g : Invoke} (hc : SameCalls .stay ((boundedContract n).Meets .stay) f g)

include hc

theorem meets_body_of_loopFree (fuel fuel' : Nat) {statements : List Stmt}
    (hloops : Stmt.loopsOf statements = [])
    (hfunctions : ∀ k ∈ Stmt.functionsOf statements, k.LoopFree) :
    (boundedContract n).Meets .stay (runBody f fuel statements) (runBody g fuel' statements) := by
  have h : Congruence Function.LoopFree .stay ((boundedContract n).Meets .stay) :=
    Contract.congruence
  have hl : ∀ l ∈ Stmt.loopsOf statements,
      fuel = fuel' ∧ Looping .stay ((boundedContract n).Meets .stay) := by
    rw [hloops]
    exact nofun
  have hbody := runBody_congr h.stmt hc statements hfunctions (fun _ _ => trivial)
    (fun _ _ _ _ => trivial) hl
  rwa [Stmt.relocateAll_stay] at hbody

theorem meets_activation_of_bounded {fuel fuel' : Nat} (id : ObjectId) (receiver : Value)
    (args : List Value) :
    (boundedContract n).Meets .stay (activation f fuel id receiver args)
      (activation g fuel' id receiver args) := by
  have h : Congruence Function.LoopFree .stay ((boundedContract n).Meets .stay) :=
    Contract.congruence
  have hfail {α : Type} (c : InternalCause) :
      (boundedContract n).Meets .stay (throw (.internal c) : Eval α) (throw (.internal c)) :=
    Contract.meets_throw nofun
  intro m hm
  refine .of_reading_stay ?_
  have hadmitted := hm.admits id
  cases hkind : (m.heap.object id).kind with
  | closure k home =>
    rw [hkind] at hadmitted
    obtain ⟨hbody, hinner⟩ := hadmitted
    have hl : ∀ l ∈ k.body.loops,
        fuel = fuel' ∧ Looping .stay ((boundedContract n).Meets .stay) := by
      rw [hbody]
      exact nofun
    have hcall := callClosure_congr h hc hfail k hinner hl home receiver args
    rw [Function.relocate_stay] at hcall
    exact hcall m hm
  | native name native =>
    rw [hkind] at hadmitted
    refine h.runNative hc native receiver args (fun host hhost => ?_) m hm
    subst hhost
    cases hadmitted
  | plain | array | error => exact hfail _ m hm

end Bounded

/-- One induction on the calls that are left: that much fuel is enough for a call, and more makes no
difference. -/
theorem meets_invoke_of_bounded {n fuel fuel' : Nat} (hfuel : n ≤ fuel) (hfuel' : n ≤ fuel')
    (id : ObjectId) (receiver : Value) (args : List Value) (frame : Frame) :
    (boundedContract n).Meets .stay (invoke fuel id receiver args frame)
      (invoke fuel' id receiver args frame) := by
  induction n generalizing fuel fuel' id receiver args frame with
  | zero => exact fun m hm => hm.not_zero.elim
  | succ n ih =>
    obtain ⟨fuel, rfl⟩ : ∃ k, fuel = k + 1 := ⟨fuel - 1, by omega⟩
    obtain ⟨fuel', rfl⟩ : ∃ k, fuel' = k + 1 := ⟨fuel' - 1, by omega⟩
    have hc : SameCalls .stay ((boundedContract n).Meets .stay) (invoke fuel) (invoke fuel') :=
      Contract.congruence.sameCalls (ih (by omega) (by omega))
    refine fun m hm => .entering hm frame fun hlimit => bounded_succ ?_
    exact meets_activation_of_bounded hc id receiver args _ (hm.call hlimit frame)

theorem runProgram_of_loopFree {program : Block} (hprogram : program.LoopFree) {m : Machine}
    (hm : m.Admits Function.LoopFree) {d : UInt64} (hd : m.maxCallDepth = some d)
    {fuel fuel' : Nat} (hfuel : d.toNat < fuel) (hfuel' : d.toNat < fuel') :
    runProgram fuel' program m = runProgram fuel program m ∧
      ∀ m', runProgram fuel program m ≠ .error .outOfFuel m' := by
  obtain ⟨origin, statements⟩ := program
  have hc : SameCalls .stay ((boundedContract (d.toNat + 1)).Meets .stay) (invoke fuel)
      (invoke fuel') :=
    Contract.congruence.sameCalls (meets_invoke_of_bounded hfuel hfuel')
  have hbody := meets_body_of_loopFree hc fuel fuel' hprogram.loops hprogram.functions
  have hrun : (boundedContract (d.toNat + 1)).Meets .stay
      (runBody (invoke fuel) fuel statements >>= (·.expectNormal .program))
      (runBody (invoke fuel') fuel' statements >>= (·.expectNormal .program)) := by
    refine Contract.meets_bind hbody fun c => ?_
    cases c with
    | normal => exact Contract.meets_pure _
    | leave | skip | giveBack => exact Contract.meets_throw nofun
  have hrest : m.atRest.CallsLeft (d.toNat + 1) :=
    ⟨hm, d, hd, Nat.zero_le _, Nat.lt_succ_self _⟩
  have hmeets := hrun m.atRest hrest
  exact ⟨hmeets.eq fun _ _ h => h, fun m' hr => hmeets.ends.2.2 _ m' hr rfl⟩

end Eval

open Eval

/-- A program without loops terminates on a new engine with a limit on the call depth: it ends in
one way, which is not running out of fuel, with any fuel above the limit. So do all its texts. -/
theorem bounded_depth_terminates {config : Config} {d : UInt64}
    (hd : config.maxCallDepth = some d) {program : Block} (hprogram : program.LoopFree) :
    ∃ (ended : Except Failure Value) (e : Engine), ended ≠ .error .outOfFuel ∧
      (∀ fuel > d.toNat, (Engine.new config).run (runProgram fuel program) = (ended, e)) ∧
      ∀ text, (Engine.new config).parse text = .ok program →
        ∀ fuel > d.toNat, (Engine.new config).evalWith fuel text = (ended.mapError .failed, e) := by
  have hm : (Engine.new config).machine.Admits Function.LoopFree :=
    Machine.start_admits _ config.prelude config.maxCallDepth
  have hlimit : (Engine.new config).machine.maxCallDepth = some d :=
    (Machine.start_stacks config.prelude config.maxCallDepth).maxCallDepth.trans hd
  have hends {fuel : Nat} (hfuel : d.toNat < fuel) :=
    runProgram_of_loopFree hprogram hm hlimit (Nat.lt_succ_self d.toNat) hfuel
  generalize Engine.new config = engine at hends
  obtain ⟨config, m⟩ := engine
  obtain ⟨ended, e, hended, hone⟩ : ∃ ended e, ended ≠ .error .outOfFuel ∧
      Engine.run ⟨config, m⟩ (runProgram (d.toNat + 1) program) = (ended, e) := by
    have hfails := (hends (Nat.lt_succ_self d.toNat)).2
    cases hr : runProgram (d.toNat + 1) program m with
    | ok v m' => exact ⟨.ok v, ⟨config, m'⟩, nofun, by simp only [Engine.run, hr]⟩
    | error f m' =>
      refine ⟨.error f, ⟨config, m'⟩, fun heq => ?_, by simp only [Engine.run, hr]⟩
      cases heq
      exact hfails m' hr
  have hrun : ∀ fuel > d.toNat, Engine.run ⟨config, m⟩ (runProgram fuel program) = (ended, e) := by
    intro fuel hfuel
    rw [← hone]
    simp only [Engine.run, (hends hfuel).1]
  refine ⟨ended, e, hended, hrun, fun text htext fuel hfuel => ?_⟩
  simp only [Engine.evalWith, htext, hrun fuel hfuel]
  cases ended <;> rfl

/-- A function that calls itself. -/
theorem bounded_depth_terminates_recursion :
    let call : Expr := .call default (.identifier default "f") []
    let f : Function := .mk none [] (.mk default [.giveBack default (some call)])
    let program : Block :=
      .mk default [.function default ⟨"f", default⟩ f, .expression default call]
    let e := Engine.new { Config.standard with maxCallDepth := some 100 }
    ∃ ended e', ended ≠ .error .outOfFuel ∧
      ∀ fuel > 100, e.run (runProgram fuel program) = (ended, e') := by
  intro call f program e
  have hf : f.LoopFree := .intro rfl fun g hg => nomatch hg
  have hprogram : program.LoopFree := by
    refine ⟨rfl, fun g hg => ?_⟩
    cases List.mem_singleton.mp hg
    exact hf
  have hlimit : { Config.standard with maxCallDepth := some 100 }.maxCallDepth = some 100 := rfl
  obtain ⟨ended, e', hended, hrun, -⟩ := bounded_depth_terminates hlimit hprogram
  exact ⟨ended, e', hended, hrun⟩

end ScriptEngine
