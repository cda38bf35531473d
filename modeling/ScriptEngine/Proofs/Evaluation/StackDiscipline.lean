import ScriptEngine.Proofs.Evaluation.Monitor
import ScriptEngine.Proofs.Evaluation.Prelude

/-!
# Stack discipline

The current scope, the active calls and the arrays being joined are set in three places only, and
each of them puts back what it found, however the action in between ends. With a limit on the call
depth, no machine that a run comes through is beyond it.
-/

namespace ScriptEngine

namespace Machine

structure SameStacks (m m' : Machine) : Prop where
  current : m'.current = m.current
  frames : m'.frames = m.frames
  joining : m'.joining = m.joining
  maxCallDepth : m'.maxCallDepth = m.maxCallDepth

theorem SameStacks.refl (m : Machine) : m.SameStacks m :=
  ⟨rfl, rfl, rfl, rfl⟩

theorem SameStacks.trans {a b c : Machine} (hab : a.SameStacks b) (hbc : b.SameStacks c) :
    a.SameStacks c where
  current := hbc.current.trans hab.current
  frames := hbc.frames.trans hab.frames
  joining := hbc.joining.trans hab.joining
  maxCallDepth := hbc.maxCallDepth.trans hab.maxCallDepth

theorem Change.sameStacks {P : Function → Prop} {m m' : Machine} (h : m.Change P m') :
    m.SameStacks m' := by
  cases h <;> exact ⟨rfl, rfl, rfl, rfl⟩

inductive Step (m : Machine) : Machine → Prop where
  | change {m' : Machine} (h : m.Change (fun _ => True) m') : Step m m'
  | scope (id : ScopeId) : Step m { m with current := id }
  | join (id : ObjectId) : Step m { m with joining := id :: m.joining }
  | joined : Step m { m with joining := m.joining.tail }
  | call (frame : Frame) (hlimit : Eval.atCallLimit m = false) :
      Step m { m with frames := frame :: m.frames }
  | returned : Step m { m with frames := m.frames.tail }
  | rest : Step m m.atRest

/-- The machines that runs come through, from the ones that programs start on. -/
inductive Reachable : Machine → Prop where
  | start (prelude : Bool) (maxCallDepth : Option UInt64) :
      Reachable (Machine.start prelude maxCallDepth)
  | step {m m' : Machine} (hm : Reachable m) (h : m.Step m') : Reachable m'

theorem Step.maxCallDepth {m m' : Machine} (h : m.Step m') : m'.maxCallDepth = m.maxCallDepth := by
  cases h with
  | change h => exact h.sameStacks.maxCallDepth
  | scope | join | joined | call | returned | rest => rfl

def WithinLimit (m : Machine) : Prop :=
  ∀ d, m.maxCallDepth = some d → m.frames.length ≤ d.toNat

theorem WithinLimit.step {m m' : Machine} (hm : m.WithinLimit) (h : m.Step m') :
    m'.WithinLimit := by
  intro d hd
  rw [h.maxCallDepth] at hd
  have hlen := hm d hd
  cases h with
  | change h => rwa [h.sameStacks.frames]
  | scope | join | joined => exact hlen
  | call frame hlimit =>
    simp only [Eval.atCallLimit, hd, decide_eq_false_iff_not, Nat.not_le] at hlimit
    exact hlimit
  | returned =>
    simp only [List.length_tail]
    omega
  | rest => exact Nat.zero_le _

theorem start_stacks (prelude : Bool) (maxCallDepth : Option UInt64) :
    (bare maxCallDepth).SameStacks (start prelude maxCallDepth) := by
  refine start_induction ?_ ?_ ?_ maxCallDepth (SameStacks.refl _) prelude
  · exact fun m id key v hm => hm.trans ⟨rfl, rfl, rfl, rfl⟩
  · exact fun m name f _ hm => hm.trans ⟨rfl, rfl, rfl, rfl⟩
  · exact fun m name v hm => hm.trans ⟨rfl, rfl, rfl, rfl⟩

theorem Reachable.withinLimit {m : Machine} (hm : m.Reachable) : m.WithinLimit := by
  induction hm with
  | start prelude maxCallDepth =>
    intro d _
    rw [(start_stacks prelude maxCallDepth).frames]
    exact Nat.zero_le _
  | step _ h ih => exact ih.step h

end Machine

namespace Eval

open Machine

section Closed

variable (S : Machine → Prop) (hS : ∀ {m m' : Machine}, S m → m.Step m' → S m')

/-- A set of machines that no step leaves is kept by every run, which also puts the stacks back; and
the calls in a thrown value were active on a machine of the set. -/
def stackContract : Contract (fun _ => True) where
  holds := S
  keeps := SameStacks
  fails e := ∀ t, e = .thrown t → ∃ m, S m ∧ t.stack = m.frames
  refl := SameStacks.refl
  trans := SameStacks.trans
  change hm hc _ := ⟨hS hm (.change hc), hc.sameStacks⟩
  enter id hm := hS hm (.scope id)
  leave _ _ hm' hk := ⟨hS hm' (.scope _), rfl, hk.frames, hk.joining, hk.maxCallDepth⟩
  join id hm := hS hm (.join id)
  joined _ _ hm' hk :=
    ⟨hS hm' .joined, hk.current, hk.frames, by simp [hk.joining], hk.maxCallDepth⟩
  call frame hm hlimit := hS hm (.call frame hlimit)
  returned _ _ hm' hk :=
    ⟨hS hm' .returned, hk.current, by simp [hk.frames], hk.joining, hk.maxCallDepth⟩
  thrown v hm t ht := by
    cases ht
    exact ⟨_, hm, rfl⟩
  excuses _ _ := False
  excuses_retains _ h _ := h

variable {S}

theorem outOfFuel_fails : (stackContract S hS).fails .outOfFuel :=
  fun _ ht => nomatch ht

theorem internal_fails (c : InternalCause) : (stackContract S hS).fails (.internal c) :=
  fun _ ht => nomatch ht

theorem meets_activity {watch : Eval Value → Eval Value} (hwatch : ∀ x m, S m → watch x m = x m)
    (fuel rounds : Nat) {α : Type} (a : Activity α) (m : Machine) (hm : S m) :
    a.run (monitored watch fuel) rounds m = a.run (invoke fuel) rounds m ∧
      (stackContract S hS).Ends m (a.run (invoke fuel) rounds m) := by
  have hmeets := Contract.meets_activity (outOfFuel_fails hS) (internal_fails hS)
    (fun _ y m hm hxy => hxy.congr_right (hwatch y m hm)) fuel rounds a m hm
  rw [monitored_id] at hmeets
  exact ⟨hmeets.eq fun _ _ => id, hmeets.ends⟩

theorem meets_program {watch : Eval Value → Eval Value} (hwatch : ∀ x m, S m → watch x m = x m)
    (fuel : Nat) (program : Block) {m : Machine} (hm : S m) :
    runProgramWith (monitored watch fuel) fuel program m = runProgram fuel program m ∧
      (stackContract S hS).Ends m.atRest (runProgram fuel program m) := by
  have hmeets := Contract.meetsAt_program (outOfFuel_fails hS) (internal_fails hS)
    (fun _ y m hm hxy => hxy.congr_right (hwatch y m hm)) fuel program (hS hm .rest)
  rw [monitored_id] at hmeets
  exact ⟨hmeets.eq fun _ _ => id, hmeets.ends⟩

end Closed

/-- A monitor that acts otherwise as soon as more than `n` calls are active. -/
def whenDeeper (n : Nat) (elsewhere action : Eval Value) : Eval Value :=
  fun m => if n < m.frames.length then elsewhere m else action m

/-- A run never has more than `n` calls active: it is the same whatever would be done then, and no
value is thrown with more calls than that. -/
structure KeepsWithin (n fuel : Nat) {α : Type} (run : Invoke → Eval α) (m : Machine) : Prop where
  monitored (elsewhere : Eval Value) :
    run (monitored (whenDeeper n elsewhere) fuel) m = run (invoke fuel) m
  thrown (t : Thrown) (m' : Machine) : run (invoke fuel) m = .error (.thrown t) m' →
    t.stack.length ≤ n

def After (m m' : Machine) : Prop :=
  m'.Reachable ∧ m'.maxCallDepth = m.maxCallDepth

theorem After.step {m m₁ m₂ : Machine} (h₁ : After m m₁) (h : m₁.Step m₂) : After m m₂ :=
  ⟨.step h₁.1 h, h.maxCallDepth.trans h₁.2⟩

theorem After.length_frames_le {m m' : Machine} (h : After m m') {d : UInt64}
    (hd : m.maxCallDepth = some d) : m'.frames.length ≤ d.toNat :=
  h.1.withinLimit d (h.2.trans hd)

theorem keepsWithin_of_ends {m m₀ : Machine} {d : UInt64} (hd : m.maxCallDepth = some d)
    (fuel : Nat) {α : Type} {run : Invoke → Eval α}
    (hrun : ∀ watch : Eval Value → Eval Value, (∀ x m', After m m' → watch x m' = x m') →
      run (monitored watch fuel) m = run (invoke fuel) m ∧
        (stackContract (After m) After.step).Ends m₀ (run (invoke fuel) m)) :
    KeepsWithin d.toNat fuel run m := by
  have hwatch (elsewhere x : Eval Value) (m' : Machine) (hm' : After m m') :
      whenDeeper d.toNat elsewhere x m' = x m' := by
    have hlen := hm'.length_frames_le hd
    unfold whenDeeper
    rw [if_neg (by omega)]
  constructor
  · intro elsewhere
    exact (hrun _ (hwatch elsewhere)).1
  · intro t m' ht
    obtain ⟨-, -, -, hfail⟩ := hrun _ (hwatch (pure .undefined))
    obtain ⟨m'', hm'', hstack⟩ := hfail _ m' ht t rfl
    rw [hstack]
    exact hm''.length_frames_le hd

/-- Whatever is evaluated on a reachable machine, and however it ends, the stacks are as they were
and the machine is reachable again. With a limit on the call depth, neither the evaluation nor a
program that is run there goes beyond the limit. -/
theorem stack_discipline {m : Machine} (hm : m.Reachable) (fuel rounds : Nat) :
    (∀ {α : Type} (a : Activity α),
      m.SameStacks (final (a.run (invoke fuel) rounds m)) ∧
        Reachable (final (a.run (invoke fuel) rounds m))) ∧
    ∀ d, m.maxCallDepth = some d → m.frames.length ≤ d.toNat ∧
      (∀ {α : Type} (a : Activity α), KeepsWithin d.toNat fuel (fun f => a.run f rounds) m) ∧
      ∀ program : Block, KeepsWithin d.toNat fuel (fun f => runProgramWith f fuel program) m := by
  have hafter : After m m := ⟨hm, rfl⟩
  refine ⟨fun a => ?_, fun d hd => ⟨hafter.length_frames_le hd, fun a => ?_, fun program => ?_⟩⟩
  · have hidle (x : Eval Value) (m' : Machine) (_ : After m m') : id x m' = x m' := rfl
    obtain ⟨-, hend⟩ := meets_activity After.step hidle fuel rounds a m hafter
    exact ⟨hend.2.1, hend.1.1⟩
  · exact keepsWithin_of_ends hd fuel fun _ hwatch =>
      meets_activity After.step hwatch fuel rounds a m hafter
  · exact keepsWithin_of_ends hd fuel fun _ hwatch =>
      meets_program After.step hwatch fuel program hafter

/-- In the one call that a limit of one admits, another call keeps to the limit. -/
theorem stack_discipline_in_last_call :
    KeepsWithin 1 5 (fun f => (Activity.value (.object 10) .undefined []).run f 5)
      { Machine.start true (some 1) with frames := [⟨"f", 1, 1⟩] } := by
  have hstart := Reachable.start true (some 1)
  have hstacks := start_stacks true (some 1)
  -- only the stacks of the machine matter, so it is not computed
  generalize Machine.start true (some 1) = m at hstart hstacks
  have hlimit : atCallLimit m = false := by
    simp only [atCallLimit, hstacks.maxCallDepth, hstacks.frames, Machine.bare]
    decide
  have hcall := Step.call ⟨"f", 1, 1⟩ hlimit
  rw [hstacks.frames] at hcall
  obtain ⟨-, hlimited⟩ := stack_discipline (hstart.step hcall) 5 5
  exact (hlimited 1 hstacks.maxCallDepth).2.1 _

end Eval

end ScriptEngine
