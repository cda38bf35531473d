import ScriptEngine.Proofs.Evaluation.Monitor
import ScriptEngine.Proofs.Evaluation.Prelude
import ScriptEngine.Syntax.Nesting

/-!
# Jumps do not escape

A statement whose jumps have something to take them ends with no other jump than its surroundings
take, however its calls behave. So the body of a well-nested function ends normally or returns. On a
heap where all closures are well nested, no call and no program fails internally.
-/

namespace ScriptEngine

/-- Whether surroundings take the jump that a statement ends with. -/
def Surroundings.take (c : Surroundings) : Completion → Bool
  | .normal _ => true
  | .leave => c.inLoop || c.inSwitch
  | .skip => c.inLoop
  | .giveBack _ => c.inFunction

namespace Eval

def Yields {α : Type} (x : Eval α) (Q : α → Prop) : Prop :=
  ∀ m a m', x m = .ok a m' → Q a

section Yields

variable {α β : Type} {Q : α → Prop}

theorem yields_pure {a : α} (ha : Q a) : Yields (pure a) Q := by
  intro m b m' h
  cases h
  exact ha

theorem yields_throw (e : Failure) : Yields (throw e) Q :=
  fun _ _ _ h => nomatch h

theorem yields_bind {x : Eval β} {f : β → Eval α} {Q' : β → Prop} (hx : Yields x Q')
    (hf : ∀ b, Q' b → Yields (f b) Q) : Yields (x >>= f) Q := by
  intro m a m' h
  simp only [bind, EStateM.bind] at h
  cases hr : x m with
  | ok b m₁ =>
    rw [hr] at h
    exact hf b (hx m b m₁ hr) m₁ a m' h
  | error e m₁ =>
    rw [hr] at h
    cases h

theorem yields_seq {x : Eval β} {f : β → Eval α} (hf : ∀ b, Yields (f b) Q) :
    Yields (x >>= f) Q := by
  have hx : Yields x fun _ => True := fun _ _ _ _ => trivial
  exact yields_bind hx fun b _ => hf b

theorem yields_always {x : Eval α} (hx : Yields x Q) (after : Machine → Machine) :
    Yields (always x after) Q := by
  intro m a m' h
  unfold always at h
  cases hr : x m with
  | ok b m₁ =>
    rw [hr] at h
    cases h
    exact hx m _ m₁ hr
  | error e m₁ =>
    rw [hr] at h
    cases h

theorem yields_inScope {x : Eval α} (hx : Yields x Q) (id : ScopeId) : Yields (inScope id x) Q :=
  fun _ a m' h => yields_always hx _ _ a m' h

theorem yields_inBlock {x : Eval α} (hx : Yields x Q) : Yields (inBlock x) Q :=
  yields_seq fun _ => yields_seq fun id => yields_inScope hx id

theorem yields_resume {x : Eval α} (hx : Yields x Q) {m m' : Machine} {ended : Except Failure α}
    (h : outcome x m = .ok ended m') : Yields (resume ended) Q := by
  unfold outcome at h
  cases hr : x m with
  | ok a m₁ =>
    rw [hr] at h
    cases h
    exact yields_pure (hx m a _ hr)
  | error e m₁ =>
    rw [hr] at h
    cases h
    exact yields_throw e

theorem yields_outcome {x : Eval α} (hx : Yields x Q) :
    Yields (outcome x) fun ended => Yields (resume ended) Q :=
  fun _ _ _ h => yields_resume hx h

end Yields

variable {c : Surroundings}

theorem yields_catching {x : Eval Completion} (hx : Yields x (c.take ·))
    {handler : Option (Value → Eval Completion)}
    (hhandler : ∀ handle ∈ handler, ∀ v, Yields (handle v) (c.take ·)) :
    Yields (catching x handler) (c.take ·) := by
  refine yields_bind (yields_outcome hx) fun ended hended => ?_
  split
  · exact hhandler _ rfl _
  · exact hended

theorem yields_finalizing {x : Eval Completion} (hx : Yields x (c.take ·))
    {last : Option (Eval Completion)} (hlast : ∀ block ∈ last, Yields block (c.take ·)) :
    Yields (finalizing x last) (c.take ·) := by
  cases last with
  | none => exact hx
  | some block =>
    refine yields_bind (yields_outcome hx) fun ended hended => ?_
    split
    · exact yields_throw _
    · refine yields_bind (hlast block rfl) fun jump hjump => ?_
      cases jump with
      | normal => exact hended
      | leave | skip | giveBack => exact yields_pure hjump

theorem yields_whileLoop {condition : Eval Value} {body : Eval Completion}
    (hbody : Yields body (c.enterLoop.take ·)) (n : Nat) :
    Yields (whileLoop condition body n) (c.take ·) := by
  induction n with
  | zero => exact yields_throw _
  | succ n ih =>
    refine yields_seq fun v => ?_
    split
    · refine yields_bind hbody fun jump hjump => ?_
      cases jump with
      | leave => exact yields_pure rfl
      | giveBack => exact yields_pure hjump
      | normal | skip => exact ih
    · exact yields_pure rfl

theorem yields_forLoop {condition update : Option (Eval Value)} {body : Eval Completion}
    (hbody : Yields body (c.enterLoop.take ·)) (n : Nat) :
    Yields (forLoop condition update body n) (c.take ·) := by
  induction n with
  | zero => exact yields_throw _
  | succ n ih =>
    refine yields_seq fun goes => ?_
    split
    · refine yields_bind hbody fun jump hjump => ?_
      cases jump with
      | leave => exact yields_pure rfl
      | giveBack => exact yields_pure hjump
      | normal | skip =>
        cases update with
        | none => exact ih
        | some action => exact yields_seq fun _ => ih
    · exact yields_pure rfl

theorem yields_loopBody {body : Eval Completion} (hbody : Yields body (c.take ·))
    (names : List String) : Yields (loopBody names body) (c.take ·) := by
  unfold loopBody
  split
  · exact hbody
  · refine yields_seq fun loop => yields_seq fun scope => yields_seq fun _ => ?_
    exact yields_always (yields_inScope hbody scope) _

theorem yields_handling {body : Eval Completion} (hbody : Yields body (c.take ·))
    (param : Option Ident) (v : Value) : Yields (handling param body v) (c.take ·) := by
  have hinner (scope : ScopeId) := yields_inScope (yields_inBlock hbody) scope
  refine yields_seq fun current => yields_seq fun scope => ?_
  cases param with
  | none => exact hinner scope
  | some p => exact yields_seq fun _ => hinner scope

theorem yields_switchArm {body rest : Eval Completion} (hbody : Yields body (c.enterSwitch.take ·))
    (hrest : Yields rest (c.take ·)) :
    Yields (body >>= fun jump =>
      match jump with
      | .normal _ => rest
      | .leave => return .undefined
      | jump => return jump) (c.take ·) := by
  refine yields_bind hbody fun jump hjump => ?_
  cases jump with
  | normal => exact hrest
  | leave => exact yields_pure rfl
  | skip | giveBack => exact yields_pure hjump

end Eval

open Eval

mutual

theorem Stmt.run_yields (invoke : Invoke) (n : Nat) (c : Surroundings) (s : Stmt)
    (hs : s.takesJumps c) : Yields (s.run invoke n) (c.take ·) := by
  match s with
  | .expression .. | .declaration .. => exact yields_seq fun _ => yields_pure rfl
  | .function .. =>
    exact yields_seq fun _ => yields_seq fun _ => yields_seq fun _ => yields_pure rfl
  | .block _ body => exact yields_inBlock (Block.runBody_yields invoke n c body hs)
  | .branch _ _ yes no =>
    simp only [Stmt.takesJumps, Bool.and_eq_true] at hs
    refine yields_seq fun v => ?_
    split
    · exact Stmt.run_yields invoke n c yes hs.1
    · exact Stmt.runIfAny_yields invoke n c no hs.2
  | .whileLoop _ _ body => exact yields_whileLoop (Stmt.run_yields invoke n _ body hs) n
  | .forLoop _ _ _ _ body =>
    simp only [Stmt.takesJumps, Bool.and_eq_true] at hs
    refine yields_inBlock (yields_seq fun _ => ?_)
    exact yields_forLoop (yields_loopBody (Stmt.run_yields invoke n _ body hs.2) _) n
  | .switch _ _ cases =>
    exact yields_seq fun v => yields_inBlock (SwitchCase.runArms_yields invoke n c v false cases hs)
  | .breakLoop _ | .continueLoop _ => exact yields_pure hs
  | .raise .. => exact yields_seq fun _ => yields_seq fun _ => yields_throw _
  | .attempt _ body handler finalizer =>
    simp only [Stmt.takesJumps, Bool.and_eq_true] at hs
    have hbody := yields_inBlock (Block.runBody_yields invoke n c body hs.1.1)
    have hcaught := yields_catching hbody (Handler.runIfAny_yields invoke n c handler hs.1.2)
    exact yields_finalizing hcaught (Block.runIfAny_yields invoke n c finalizer hs.2)
  | .giveBack _ none => exact yields_pure hs
  | .giveBack _ (some _) => exact yields_seq fun _ => yields_pure hs
  | .empty _ => exact yields_pure rfl
termination_by structural s

theorem Stmt.runIfAny_yields (invoke : Invoke) (n : Nat) (c : Surroundings) (s : Option Stmt)
    (hs : Stmt.takesJumpsIfAny c s) : Yields (Stmt.runIfAny invoke n s) (c.take ·) := by
  match s with
  | none => exact yields_pure rfl
  | some s => exact Stmt.run_yields invoke n c s hs
termination_by structural s

theorem Stmt.runAll_yields (invoke : Invoke) (n : Nat) (c : Surroundings) (last : Option Value)
    (ss : List Stmt) (hs : Stmt.takeJumps c ss) :
    Yields (Stmt.runAll invoke n last ss) (c.take ·) := by
  match ss with
  | [] => exact yields_pure rfl
  | s :: ss =>
    simp only [Stmt.takeJumps, Bool.and_eq_true] at hs
    refine yields_bind (Stmt.run_yields invoke n c s hs.1) fun jump hjump => ?_
    match jump with
    | .normal (some v) => exact Stmt.runAll_yields invoke n c (some v) ss hs.2
    | .normal none => exact Stmt.runAll_yields invoke n c last ss hs.2
    | .leave | .skip | .giveBack _ => exact yields_pure hjump
termination_by structural ss

theorem Block.runBody_yields (invoke : Invoke) (n : Nat) (c : Surroundings) (b : Block)
    (hb : b.takesJumps c) : Yields (b.runBody invoke n) (c.take ·) := by
  match b with
  | .mk _ statements => exact Stmt.runAll_yields invoke n c none statements hb
termination_by structural b

theorem Block.runIfAny_yields (invoke : Invoke) (n : Nat) (c : Surroundings) (b : Option Block)
    (hb : Block.takesJumpsIfAny c b) :
    ∀ block ∈ Block.runIfAny invoke n b, Yields block (c.take ·) := by
  match b with
  | none => exact fun _ h => nomatch h
  | some b =>
    rintro _ ⟨⟩
    exact yields_inBlock (Block.runBody_yields invoke n c b hb)
termination_by structural b

theorem Handler.runIfAny_yields (invoke : Invoke) (n : Nat) (c : Surroundings)
    (handler : Option Handler) (hh : Handler.takesJumpsIfAny c handler) :
    ∀ handle ∈ Handler.runIfAny invoke n handler, ∀ v, Yields (handle v) (c.take ·) := by
  match handler with
  | none => exact fun _ h => nomatch h
  | some (.mk param body) =>
    rintro _ ⟨⟩ v
    exact yields_handling (Block.runBody_yields invoke n c body hh) param v
termination_by structural handler

theorem SwitchCase.runArms_yields (invoke : Invoke) (n : Nat) (c : Surroundings) (v : Value)
    (matched : Bool) (cases : List SwitchCase) (hs : SwitchCase.takeJumps c.enterSwitch cases) :
    Yields (SwitchCase.runArms invoke n v matched cases) (c.take ·) := by
  match cases with
  | [] => exact yields_pure rfl
  | .mk _ body :: cases =>
    simp only [SwitchCase.takeJumps, Bool.and_eq_true] at hs
    refine yields_seq fun matched => ?_
    have hrest := SwitchCase.runArms_yields invoke n c v matched cases hs.2
    split
    · exact yields_switchArm (Stmt.runAll_yields invoke n _ none body hs.1) hrest
    · exact hrest
termination_by structural cases

end

end ScriptEngine
