import ScriptEngine.Proofs.Evaluation.Monitor

/-!
# Bindings are permanent

The scopes at a call are compared with the scopes before the program, at its end and at other calls.
A call is singled out by a monitor: scopes occur in a run if what is done at the calls that find or
leave them makes a difference to it. Moments between calls are reached by stopping a run at a call.
-/

namespace ScriptEngine

namespace Eval

/-- A monitor that acts otherwise at the calls that find or leave a machine of some kind. -/
def diverted (p : Machine → Bool) (elsewhere action : Eval Value) : Eval Value :=
  fun m =>
    if p m then elsewhere m
    else if p (final (action m)) then elsewhere (final (action m))
    else action m

def stopping (stop : Machine → Bool) : Eval Value → Eval Value :=
  diverted stop (throw .outOfFuel)

def runUntil (stop : Machine → Bool) (fuel : Nat) (program : Block) : Eval Value :=
  runProgramWith (monitored (stopping stop) fuel) fuel program

theorem monitored_never (fuel : Nat) : monitored (stopping fun _ => false) fuel = invoke fuel :=
  monitored_id fuel

theorem runUntil_never (fuel : Nat) (program : Block) :
    runUntil (fun _ => false) fuel program = runProgram fuel program := by
  rw [runUntil, monitored_never, runProgram]

/-- The run up to a call comes by scopes `t`: something else can be done at some of the calls that
find or leave them, and it makes a difference. -/
def Occurs (t : ScopeTree) (stop : Machine → Bool) (fuel : Nat) (program : Block) (m : Machine) :
    Prop :=
  ∃ p elsewhere, (∀ m', p m' = true → m'.scopes = t) ∧
    runProgramWith (monitored (fun action => diverted p elsewhere (stopping stop action)) fuel) fuel
      program m ≠ runUntil stop fuel program m

/-- Two runs agree unless the first has come by scopes `t`, which have all bindings from before and
none that is not retained. -/
def permanence (t : ScopeTree) : Contract (fun _ => True) where
  holds _ := True
  keeps _ _ := True
  fails _ := True
  refl _ := trivial
  trans _ _ := trivial
  change _ _ _ := ⟨trivial, trivial⟩
  enter _ _ := trivial
  leave _ _ _ _ := ⟨trivial, trivial⟩
  join _ _ := trivial
  joined _ _ _ _ := ⟨trivial, trivial⟩
  call _ _ _ := trivial
  returned _ _ _ _ := ⟨trivial, trivial⟩
  thrown _ _ := trivial
  excuses t₁ t₂ := t₁.Retains t ∧ t.Retains t₂
  excuses_retains hbefore h hafter := ⟨hbefore.trans h.1, h.2.trans hafter⟩

variable {t : ScopeTree} {x y : Eval Value} {m : Machine}

theorem permanence_ends {α : Type} (r : EStateM.Result Failure Machine α) :
    (permanence t).Ends m r :=
  ⟨trivial, trivial, fun _ _ _ => trivial⟩

theorem meetsAt_diverted (h : (permanence t).MeetsAt .stay m x y) {p : Machine → Bool}
    (hp : ∀ m', p m' = true → m'.scopes = t) (elsewhere : Eval Value) :
    (permanence t).MeetsAt .stay m x (diverted p elsewhere y) := by
  refine ⟨?_, permanence_ends _, h.retains⟩
  have hagree := h.agree
  have hretains := h.retains.scopes
  rw [Machine.relocate_stay, relocated_stay] at hagree ⊢
  by_cases hfinds : p m = true
  · rw [hp m hfinds] at hretains ⊢
    exact .inr ⟨.refl t, hretains⟩
  · rcases hagree with hagree | hexcused
    · by_cases hleaves : p (final (x m)) = true
      · rw [hp _ hleaves] at hretains ⊢
        exact .inr ⟨hretains, .refl t⟩
      · left
        simp only [diverted, hagree, hfinds, hleaves]
        rfl
    · exact .inr hexcused

theorem Contract.MeetsAt.stopping {P : Function → Prop} {C : Contract P}
    (hfuel : C.fails .outOfFuel)
    (hm : C.holds m) (h : C.MeetsAt .stay m x y) (stop : Machine → Bool) :
    C.MeetsAt .stay m (Eval.stopping stop x) (Eval.stopping stop y) := by
  have hagree := h.agree
  rw [Machine.relocate_stay, relocated_stay] at hagree
  have hthrow (m' : Machine) (hm' : C.holds m') :
      C.MeetsAt .stay m' (throw .outOfFuel : Eval Value) (throw .outOfFuel) :=
    Contract.meets_throw hfuel m' hm'
  by_cases hfinds : stop m = true
  · refine .of_later (C.refl m) (.refl m) (hthrow m hm) ?_ (.inl ?_)
    · simp only [Eval.stopping, diverted, hfinds, if_true]
    · simp only [Eval.stopping, diverted, Machine.relocate_stay, hfinds, if_true]
  · by_cases hleaves : stop (final (x m)) = true
    · refine .of_later h.ends.2.1 h.retains (hthrow _ h.ends.1) ?_
        (hagree.imp_left fun hagree => ?_)
      · simp only [Eval.stopping, diverted, hfinds, hleaves]
        rfl
      · simp only [Eval.stopping, diverted, Machine.relocate_stay, hagree, hfinds, hleaves]
        rfl
    · have hx : Eval.stopping stop x m = x m := by
        simp only [Eval.stopping, diverted, hfinds, hleaves]
        rfl
      refine ⟨?_, ?_, ?_⟩
      · rw [hx]
        refine hagree.imp_left fun hagree => ?_
        simp only [Eval.stopping, diverted, Machine.relocate_stay, relocated_stay, hagree, hfinds,
          hleaves]
        rfl
      · rw [hx]
        exact h.ends
      · rw [hx]
        exact h.retains

theorem retains_runUntil (stop : Machine → Bool) (fuel : Nat) (program : Block) (m : Machine) :
    m.scopes.Retains (final (runUntil stop fuel program m)).scopes := by
  have hmeets := Contract.meetsAt_program (C := permanence m.scopes) trivial (fun _ => trivial)
    (fun _ _ _ _ hxy => hxy.stopping trivial trivial stop) fuel program (m := m) trivial
  exact hmeets.retains.scopes

theorem retains_activity (stop : Machine → Bool) (fuel rounds : Nat) {α : Type} (a : Activity α)
    (m : Machine) : m.Retains (final (a.run (monitored (stopping stop) fuel) rounds m)) := by
  have hmeets := Contract.meets_activity (C := permanence m.scopes) trivial (fun _ => trivial)
    (fun _ _ _ _ hxy => hxy.stopping trivial trivial stop) fuel rounds a m trivial
  exact hmeets.retains

theorem Occurs.between {stop : Machine → Bool} {fuel : Nat} {program : Block}
    (h : Occurs t stop fuel program m) :
    m.scopes.Retains t ∧ t.Retains (final (runUntil stop fuel program m)).scopes := by
  obtain ⟨p, elsewhere, hp, hdiffers⟩ := h
  have hmeets := Contract.meetsAt_program (C := permanence t) trivial (fun _ => trivial)
    (fun _ _ _ _ hxy => meetsAt_diverted (hxy.stopping trivial trivial stop) hp elsewhere)
    fuel program (m := m) trivial
  have hagree := hmeets.agree
  rw [Machine.relocate_stay, relocated_stay] at hagree
  exact hagree.resolve_left hdiffers

section RunsOut

variable {α β : Type}

def runsOut : EStateM.Result Failure Machine α → Bool
  | .error .outOfFuel _ => true
  | _ => false

theorem runsOut_iff {r : EStateM.Result Failure Machine α} :
    runsOut r = true ↔ ∃ m, r = .error .outOfFuel m := by
  unfold runsOut
  split
  next m => simp
  next hne =>
    simp only [Bool.false_eq_true, false_iff]
    rintro ⟨m, rfl⟩
    exact hne m rfl

theorem not_runsOut_iff {r : EStateM.Result Failure Machine α} :
    runsOut r = false ↔ ∀ m, r ≠ .error .outOfFuel m := by
  rw [← Bool.not_eq_true, runsOut_iff, not_exists]

theorem runsOut_bind {x : Eval α} {f : α → Eval β} {m : Machine} (h : runsOut (x m) = true) :
    runsOut ((x >>= f) m) = true := by
  obtain ⟨m', hm'⟩ := runsOut_iff.mp h
  simp only [bind, EStateM.bind, hm', runsOut]

theorem runsOut_bind_of_ok {x : Eval α} {f : α → Eval β} {m : Machine} (a : α) (m' : Machine)
    (hx : x m = .ok a m') (h : runsOut (f a m') = true) : runsOut ((x >>= f) m) = true := by
  rwa [bind_of_ok hx]

theorem runsOut_always {x : Eval α} {after : Machine → Machine} {m : Machine}
    (h : runsOut (x m) = true) : runsOut (always x after m) = true := by
  obtain ⟨m', hm'⟩ := runsOut_iff.mp h
  simp only [always, hm', runsOut]

end RunsOut

end Eval

open Eval

/-- Scopes that come after others when programs are run one after the other: at the end of a
program, at a call in it, or at the call where it is stopped. Whatever the evaluator does in a
program is an activity, so its start and its end are such times, too, and the call up to which it is
run. -/
inductive ScopeTree.Later : ScopeTree → ScopeTree → Prop where
  | program (m : Machine) (fuel : Nat) (program : Block) :
      Later m.scopes (final (runProgram fuel program m)).scopes
  | within {t : ScopeTree} {stop : Machine → Bool} {fuel : Nat} {program : Block} {m : Machine}
      (h : Occurs t stop fuel program m) : Later m.scopes t
  | since {t : ScopeTree} {stop : Machine → Bool} {fuel : Nat} {program : Block} {m : Machine}
      (h : Occurs t stop fuel program m) : Later t (final (runUntil stop fuel program m)).scopes
  | activity (stop : Machine → Bool) (fuel rounds : Nat) {α : Type} (a : Activity α) (m : Machine) :
      Later m.scopes (final (a.run (monitored (stopping stop) fuel) rounds m)).scopes
  | trans {t₁ t₂ t₃ : ScopeTree} (h₁ : Later t₁ t₂) (h₂ : Later t₂ t₃) : Later t₁ t₃

theorem ScopeTree.Later.retains {t t' : ScopeTree} (h : t.Later t') : t.Retains t' := by
  induction h with
  | program m fuel program =>
    rw [← runUntil_never]
    exact retains_runUntil _ fuel program m
  | within h => exact h.between.1
  | since h => exact h.between.2
  | activity stop fuel rounds a m => exact (retains_activity stop fuel rounds a m).scopes
  | trans _ _ h₁ h₂ => exact h₁.trans h₂

/-- A binding is there for good: it has its kind and, if it is constant, its value at all later
times. -/
theorem bindings_are_permanent {t t' : ScopeTree} (h : t.Later t') {id : ScopeId} {name : String}
    {b : Binding} (hb : t.getLocal? id name = some b) :
    ∃ b', t'.getLocal? id name = some b' ∧ b'.kind = b.kind ∧
      (b.kind = .const → b'.value = b.value) :=
  h.retains.binding id name b hb

/-- The constant of a loop, seen from the call in its first round and from the end of the program.
-/
theorem bindings_are_permanent_loop_constant :
    let call : Stmt := .expression default (.call default (.identifier default "f") [])
    let declared : Stmt := .declaration default .const
      [.mk ⟨"i", default⟩ (some (.bool default true))]
    let program : Block := .mk default [.forLoop default (some declared)
      (some (.identifier default "i"))
        none (.block default (.mk default [call, .breakLoop default]))]
    let i : Binding := ⟨.bool true, .const⟩
    let root := Scope.root.bind "f" ⟨.object 0, .var⟩
    let m : Machine := ⟨#[.bare (.native "f" .identity) none], #[root], 0, [], [], none⟩
    let t : ScopeTree :=
      #[root, (Scope.block 0).bind "i" i, (Scope.block 1).bind "i" i, Scope.block 2]
    Occurs t (fun _ => false) 2 program m ∧ t.getLocal? 1 "i" = some i ∧
      ∃ b, (final (runProgram 2 program m)).scopes.getLocal? 1 "i" = some b ∧ b.kind = .const ∧
        b.value = .bool true := by
  intro call declared program i root m t
  have hi : t.getLocal? 1 "i" = some i := rfl
  have hoccurs : Occurs t (fun _ => false) 2 program m := by
    classical
    refine ⟨fun m' => decide (m'.scopes = t), throw .outOfFuel, fun m' => of_decide_eq_true, ?_⟩
    generalize hcalls : monitored _ 2 = calls
    have hstops (frame : Frame) (m' : Machine) (hscopes : m'.scopes = t)
        (hlimit : m'.maxCallDepth = none) : runsOut (calls 0 .undefined [] frame m') = true := by
      obtain ⟨heap, scopes, current, frames, joining, limit⟩ := m'
      subst hcalls hscopes hlimit
      refine runsOut_bind_of_ok _ _ rfl (runsOut_bind_of_ok _ _ rfl (runsOut_always ?_))
      simp only [diverted, decide_true, if_true]
      rfl
    let body : Stmt := .block default (.mk default [call, .breakLoop default])
    -- the machine before the loop, before its first round and at the start of the body
    let m₀ : Machine := { m with scopes := #[root, Scope.block 0] }
    let m₁ : Machine := { m with scopes := #[root, (Scope.block 0).bind "i" i], current := 1 }
    let m₂ : Machine :=
      { m₁ with scopes := #[root, (Scope.block 0).bind "i" i, (Scope.block 1).bind "i" i] }
    have hdeclared : declared.run calls 2 { m₀ with current := 1 } = .ok .undefined m₁ := rfl
    have hbody : runsOut (body.run calls 2 { m₂ with current := 2 }) = true := by
      refine runsOut_bind_of_ok _ _ rfl (runsOut_bind_of_ok _ _ rfl (runsOut_always ?_))
      refine runsOut_bind (runsOut_bind (runsOut_bind_of_ok _ _ rfl ?_))
      refine runsOut_bind_of_ok _ _ rfl (runsOut_bind_of_ok _ _ rfl (runsOut_bind_of_ok _ _ rfl ?_))
      exact hstops _ _ rfl rfl
    have hround : runsOut (iteration ["i"] (body.run calls 2) m₁) = true := by
      unfold iteration
      refine runsOut_bind_of_ok 1 m₁ rfl (runsOut_bind_of_ok 2 { m₁ with scopes := _ } rfl ?_)
      exact runsOut_bind_of_ok () m₂ rfl (runsOut_always (runsOut_always hbody))
    have hloop : runsOut ((Stmt.forLoop default (some declared)
      (some (.identifier default "i")) none
        body).run calls 2 m) = true := by
      refine runsOut_bind_of_ok 0 m rfl (runsOut_bind_of_ok 1 m₀ rfl (runsOut_always ?_))
      exact runsOut_bind_of_ok _ m₁ hdeclared
        (runsOut_bind_of_ok true m₁ rfl (runsOut_bind hround))
    have hstopped : runsOut (runProgramWith calls 2 program m) = true :=
      runsOut_bind_of_ok () m rfl
        (runsOut_bind (runsOut_bind_of_ok () m rfl (runsOut_bind hloop)))
    have hends : runsOut (runProgram 2 program m) = false := by decide +kernel
    intro hsame
    rw [hsame, runUntil_never, hends] at hstopped
    cases hstopped
  refine ⟨hoccurs, hi, ?_⟩
  have hlater := ScopeTree.Later.since hoccurs
  rw [runUntil_never] at hlater
  obtain ⟨b, hb, hkind, hvalue⟩ := bindings_are_permanent hlater hi
  exact ⟨b, hb, hkind, hvalue rfl⟩

end ScriptEngine
