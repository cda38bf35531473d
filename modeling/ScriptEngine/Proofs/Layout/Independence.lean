import ScriptEngine.Engine.Basic
import ScriptEngine.Proofs.Layout.Programs
import ScriptEngine.Proofs.Layout.Runs

/-!
# Layout never matters

Two texts that differ in the gaps between their words only are both refused, with reports that
differ in their places, or both end alike on a new engine: with the same value, or with the same
value thrown out of the same calls, or with the same internal failure, and on machines that differ
in places alone.
-/

namespace ScriptEngine

open Eval Token

/-- Two machines that differ in places only: in the layout of the functions of closures and in where
active calls were made. -/
structure Machine.Alike (m m' : Machine) : Prop where
  heap : m'.heap.relocate .forget = m.heap.relocate .forget
  frames : m'.frames.map Frame.name = m.frames.map Frame.name
  rest : m' = { m with heap := m'.heap, frames := m'.frames }

inductive EndsAlike : Except EngineError Value → Except EngineError Value → Prop where
  | value (v : Value) : EndsAlike (.ok v) (.ok v)
  | thrown (v : Value) {stack stack' : List Frame}
      (hnames : stack'.map Frame.name = stack.map Frame.name) :
      EndsAlike (.error (.failed (.thrown ⟨v, stack⟩))) (.error (.failed (.thrown ⟨v, stack'⟩)))
  | internal (cause : InternalCause) :
      EndsAlike (.error (.failed (.internal cause))) (.error (.failed (.internal cause)))
  | outOfFuel : EndsAlike (.error (.failed .outOfFuel)) (.error (.failed .outOfFuel))

theorem Frame.names_of_relocate {ρ : Relocation} {fs fs' : List Frame}
    (h : fs'.map (relocate ρ) = fs.map (relocate ρ)) : fs'.map name = fs.map name := by
  have hnames := congrArg (List.map name) h
  simpa [Function.comp_def] using hnames

theorem Machine.alike_of_relocate {m m' : Machine} (h : m'.relocate .forget = m.relocate .forget) :
    m.Alike m' := by
  obtain ⟨heap, scopes, current, frames, joining, limit⟩ := m
  obtain ⟨heap', scopes', current', frames', joining', limit'⟩ := m'
  simp only [relocate, Machine.mk.injEq] at h
  obtain ⟨hheap, rfl, rfl, hframes, rfl, rfl⟩ := h
  exact ⟨hheap, Frame.names_of_relocate hframes, rfl⟩

theorem endsAlike_of_relocate {f f' : Failure} (h : f'.relocate .forget = f.relocate .forget) :
    EndsAlike (.error (.failed f)) (.error (.failed f')) := by
  cases f with
  | thrown t =>
    cases f' with
    | thrown t' =>
      obtain ⟨v, stack⟩ := t
      obtain ⟨v', stack'⟩ := t'
      simp only [Failure.relocate, Failure.thrown.injEq, Thrown.mk.injEq] at h
      obtain ⟨rfl, hstack⟩ := h
      exact .thrown v' (Frame.names_of_relocate hstack)
    | internal | outOfFuel => cases h
  | internal cause =>
    cases f' with
    | internal => cases h; exact .internal cause
    | thrown | outOfFuel => cases h
  | outOfFuel =>
    cases f' with
    | outOfFuel => exact .outOfFuel
    | thrown | internal => cases h

theorem Engine.evalWith_alike {e : Engine} (he : e.machine.Admits fun _ => True) {a b : String}
    {program program' : Block} (ha : e.parse a = .ok program) (hb : e.parse b = .ok program')
    (h : program'.relocate .forget = program.relocate .forget) (fuel : Nat) :
    EndsAlike (e.evalWith fuel a).1 (e.evalWith fuel b).1 ∧
      (e.evalWith fuel b).2.config = (e.evalWith fuel a).2.config ∧
      (e.evalWith fuel a).2.machine.Alike (e.evalWith fuel b).2.machine := by
  have hrun := runProgram_forget h fuel he
  simp only [evalWith, ha, hb, run]
  cases hr : runProgram fuel program e.machine with
  | ok v m =>
    cases hr' : runProgram fuel program' e.machine with
    | ok v' m' =>
      simp only [hr, hr', relocated_ok, EStateM.Result.ok.injEq] at hrun
      obtain ⟨rfl, hm⟩ := hrun
      exact ⟨.value v', rfl, Machine.alike_of_relocate hm⟩
    | error => simp [hr, hr'] at hrun
  | error f m =>
    cases hr' : runProgram fuel program' e.machine with
    | ok => simp [hr, hr'] at hrun
    | error f' m' =>
      simp only [hr, hr', relocated_error, EStateM.Result.error.injEq] at hrun
      exact ⟨endsAlike_of_relocate hrun.1, rfl, Machine.alike_of_relocate hrun.2⟩

/-- The gaps between words decide nothing but places. -/
theorem layout_never_matters {a b : String} {ts us : List Token} (ha : scan a = .ok ts)
    (hb : scan b = .ok us) (hwords : us.map word = ts.map word)
    (hadjacent : ∀ i, i + 2 < ts.length → (Adjacent us i ↔ Adjacent ts i)) (config : Config) :
    let e := Engine.new config
    (∃ r r', e.parse a = .error r ∧ e.parse b = .error r' ∧
      r' = { r with line := r'.line, column := r'.column, sourceLine := r'.sourceLine }) ∨
    ∃ program program', e.parse a = .ok program ∧ e.parse b = .ok program' ∧ ∀ fuel,
      EndsAlike (e.evalWith fuel a).1 (e.evalWith fuel b).1 ∧
      (e.evalWith fuel b).2.config = (e.evalWith fuel a).2.config ∧
      (e.evalWith fuel a).2.machine.Alike (e.evalWith fuel b).2.machine := by
  intro e
  have he : e.machine.Admits fun _ => True :=
    Machine.start_admits _ config.prelude config.maxCallDepth
  obtain hrefused | ⟨p, p', hp, hp', hsame⟩ :=
    Program.ofSource_alike ha hb hwords hadjacent config.sourceName
  · exact .inl hrefused
  · exact .inr ⟨p, p', hp, hp', Engine.evalWith_alike he hp hp' hsame⟩

/-- A function that throws itself, called on the first line and on the third. -/
theorem layout_never_matters_thrown_function :
    let a := "function f()\x7bthrow f\x7d f( )"
    let b := "function f()\x7bthrow\nf\x7d// here\nf(/**/)\n"
    let e := Engine.new Config.standard
    ∃ ts us, scan a = .ok ts ∧ scan b = .ok us ∧ us.map word = ts.map word ∧
      (∀ i, i + 2 < ts.length → (Adjacent us i ↔ Adjacent ts i)) ∧
      ∃ program program', e.parse a = .ok program ∧ e.parse b = .ok program' ∧ ∀ fuel,
        EndsAlike (e.evalWith fuel a).1 (e.evalWith fuel b).1 ∧
        (e.evalWith fuel b).2.config = (e.evalWith fuel a).2.config ∧
        (e.evalWith fuel a).2.machine.Alike (e.evalWith fuel b).2.machine := by
  intro a b e
  have hlayouts : (match scan a, scan b with
      | .ok ts, .ok us => decide (us.map word = ts.map word ∧
          ∀ i < ts.length - 2, (Adjacent us i ↔ Adjacent ts i))
      | _, _ => false) = true := by
    decide +kernel
  have hparses : (e.parse a).isOk = true := by
    decide +kernel
  cases ha : scan a with
  | error => simp [ha] at hlayouts
  | ok ts =>
    cases hb : scan b with
    | error => simp [ha, hb] at hlayouts
    | ok us =>
      simp only [ha, hb, decide_eq_true_eq] at hlayouts
      obtain ⟨hwords, hadjacent⟩ := hlayouts
      have hadjacent' : ∀ i, i + 2 < ts.length → (Adjacent us i ↔ Adjacent ts i) :=
        fun i hi => hadjacent i (by omega)
      refine ⟨ts, us, rfl, rfl, hwords, hadjacent', ?_⟩
      obtain ⟨r, r', hr, -⟩ | halike :=
        layout_never_matters ha hb hwords hadjacent' Config.standard
      · rw [show e.parse a = .error r from hr] at hparses
        cases hparses
      · exact halike

end ScriptEngine
