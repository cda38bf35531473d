import ScriptEngine.Proofs.Evaluation.Bindings
import ScriptEngine.Proofs.Evaluation.Congruence

/-!
# Agreement up to failures

Two runs agree unless the first one fails in certain ways. No handler takes notice of these, so that
the agreement goes through whatever is done with the runs, last blocks apart: what becomes of a
failure there depends on how they are run. How many scopes there are tells early failures from late
ones.
-/

namespace ScriptEngine

namespace Eval

/-- The second run ends as the first one does, unless that fails in a way and with a number of
scopes that satisfy `E`. -/
def AgreeUnless (E : Failure → Nat → Prop) {α : Type} (x y : Eval α) : Prop :=
  ∀ m, y m = x m ∨ ∃ e m', x m = .error e m' ∧ E e m'.scopes.size

namespace AgreeUnless

variable {E : Failure → Nat → Prop} {α β : Type}

theorem refl (x : Eval α) : AgreeUnless E x x :=
  fun _ => .inl rfl

theorem eq {x y : Eval α} (h : AgreeUnless (fun _ _ => False) x y) : x = y := by
  funext m
  rcases h m with hsame | ⟨_, _, _, hfalse⟩
  · exact hsame.symm
  · cases hfalse

theorem bind {x y : Eval α} {f g : α → Eval β} (hx : AgreeUnless E x y)
    (hf : ∀ a, AgreeUnless E (f a) (g a)) : AgreeUnless E (x >>= f) (y >>= g) := by
  intro m
  simp only [Bind.bind, EStateM.bind]
  rcases hx m with hsame | ⟨e, m', hfails, he⟩
  · rw [hsame]
    cases x m with
    | ok a m' => exact hf a m'
    | error e m' => exact .inl rfl
  · rw [hfails]
    exact .inr ⟨e, m', rfl, he⟩

theorem always {x y : Eval α} (hx : AgreeUnless E x y) (after : Machine → Machine)
    (hafter : ∀ m, (after m).scopes.size = m.scopes.size) :
    AgreeUnless E (always x after) (always y after) := by
  intro m
  simp only [Eval.always]
  rcases hx m with hsame | ⟨e, m', hfails, he⟩
  · rw [hsame]
    exact .inl rfl
  · rw [hfails]
    refine .inr ⟨e, after m', rfl, ?_⟩
    rwa [hafter]

theorem inScope (id : ScopeId) {x y : Eval α} (hx : AgreeUnless E x y) :
    AgreeUnless E (inScope id x) (inScope id y) :=
  fun m => hx.always (fun m' => { m' with current := m.current }) (fun _ => rfl)
    { m with current := id }

theorem inBlock {x y : Eval α} (hx : AgreeUnless E x y) :
    AgreeUnless E (inBlock x) (inBlock y) :=
  (refl currentScope).bind fun _ => (refl _).bind fun id => hx.inScope id

theorem entering (frame : Frame) {x y : Eval Value} (hx : AgreeUnless E x y) :
    AgreeUnless E (entering frame x) (entering frame y) := by
  refine (refl (reading atCallLimit)).bind fun full => ?_
  split
  · exact refl _
  · exact (refl _).bind fun _ => hx.always _ fun _ => rfl

theorem handling (param : Option Ident) (v : Value) {x y : Eval Completion}
    (hx : AgreeUnless E x y) : AgreeUnless E (handling param x v) (handling param y v) := by
  refine (refl currentScope).bind fun _ => (refl _).bind fun scope => ?_
  cases param with
  | none => exact hx.inBlock.inScope scope
  | some p => exact (refl _).bind fun _ => hx.inBlock.inScope scope

theorem catching (hE : ∀ t n, ¬E (.thrown t) n) {x y : Eval Completion}
    {f g : Value → Eval Completion} (hx : AgreeUnless E x y) (hf : ∀ v, AgreeUnless E (f v) (g v)) :
    AgreeUnless E (catching x (some f)) (catching y (some g)) := by
  intro m
  simp only [Eval.catching, outcome, Bind.bind, EStateM.bind]
  rcases hx m with hsame | ⟨e, m', hfails, he⟩
  · rw [hsame]
    cases x m with
    | ok c m' => exact .inl rfl
    | error e m' =>
      cases e with
      | thrown t => exact hf t.value m'
      | internal | outOfFuel => exact .inl rfl
  · rw [hfails]
    cases e with
    | thrown t => exact absurd he (hE t _)
    | internal | outOfFuel => exact .inr ⟨_, m', rfl, he⟩

theorem loopBody (names : List String) {x y : Eval Completion} (hx : AgreeUnless E x y) :
    AgreeUnless E (loopBody names x) (loopBody names y) := by
  unfold Eval.loopBody
  split
  · exact hx
  · refine (refl currentScope).bind fun loop => (refl _).bind fun scope => ?_
    exact (refl _).bind fun _ => (hx.inScope scope).always _ (size_copyBack scope loop names)

theorem compositional : Compositional (AgreeUnless E) where
  pure _ := refl _
  bind := bind

theorem sequential : Sequential (AgreeUnless E) where
  toCompositional := compositional
  outOfFuel := refl _

theorem basic : BasicCongruence .stay (AgreeUnless E) where
  toCompositional := compositional
  ofReading hk m := by
    have hread := hk m m
    rwa [Machine.relocate_stay] at hread
  throwValue _ := refl _
  alloc o _ _ := by
    rw [Object.relocate_stay]
    exact refl _
  writeProperty _ _ _ := refl _

theorem sameCalls {f g : Invoke}
    (hi : ∀ id receiver args frame,
      AgreeUnless E (f id receiver args frame) (g id receiver args frame)) :
    SameCalls .stay (AgreeUnless E) f g := by
  refine basic.sameCalls fun id receiver args frame => ?_
  rw [Frame.relocate_stay]
  exact hi id receiver args frame

theorem sameCalls_refl (f : Invoke) : SameCalls .stay (AgreeUnless E) f f :=
  sameCalls fun _ _ _ _ => refl _

theorem native : NativeCongruence .stay (AgreeUnless E) where
  toBasicCongruence := basic
  append _ _ := refl _
  dropLast _ := refl _
  whileJoining _ _ _ hx := (refl _).bind fun _ => hx.always _ fun _ => rfl

theorem body (hE : ∀ t n, ¬E (.thrown t) n) :
    BodyCongruence (fun _ => True) (fun _ => True) (fun _ => True) .stay (AgreeUnless E) where
  toBasicCongruence := basic
  define _ _ _ := refl _
  functionValue _ := by
    rw [Function.relocate_stay]
    exact refl _
  assign _ _ := refl _
  newClosure _ := by
    rw [Function.relocate_stay]
    exact refl _
  declare _ _ _ := refl _
  inBlock := inBlock
  handling param v _ _ hx := by
    rw [Relocation.ident_stay, Option.map_id_fun]
    exact hx.handling param v
  catching := catching hE

theorem looping : Looping .stay (AgreeUnless E) :=
  sequential.looping inBlock fun names _ _ hx => hx.loopBody names

end AgreeUnless

end Eval

end ScriptEngine
