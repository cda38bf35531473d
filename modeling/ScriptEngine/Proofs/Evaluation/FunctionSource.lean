import ScriptEngine.Proofs.Evaluation.Admission
import ScriptEngine.Proofs.Evaluation.Permanence
import ScriptEngine.Proofs.Syntax.ProgramFunctions

/-!
# The source of function objects

Closures are made of functions that are written down in the programs that run, and a closure keeps
its function. So whenever a function object is asked for its text, in the middle of a program or
between programs, the text is read back as the function it has.
-/

namespace ScriptEngine

namespace Machine

def Authored (P : Function → Prop) (m : Machine) : Prop :=
  ∀ id f home, (m.heap.object id).kind = .closure f home → P f

variable {P : Function → Prop} {m m' : Machine}

theorem Admits.authored (hm : m.Admits P) : m.Authored P := by
  intro id f home hkind
  have hadmitted := hm id
  rwa [hkind] at hadmitted

namespace Authored

theorem alloc (hm : m.Authored P) {o : Object} (ho : ∀ f home, o.kind = .closure f home → P f) :
    Authored P { m with heap := m.heap.alloc o } := by
  intro id f home hkind
  rw [Heap.object_alloc] at hkind
  split at hkind
  · exact ho f home hkind
  · exact hm id f home hkind

theorem modify (hm : m.Authored P) {change : Object → Object}
    (hchange : ∀ o : Object, o.kind.Similar (change o).kind) (id : ObjectId) :
    Authored P { m with heap := m.heap.modify id change } :=
  fun i f home hkind => hm i f home ((m.heap.similar_modify hchange id i).closure hkind)

theorem change (hm : m.Authored P) (h : m.Change P m') : m'.Authored P := by
  cases h with
  | alloc o hf _ => exact hm.alloc hf
  | define id key v => exact hm.modify (fun o => o.similar_define key v) id
  | write id slot key v => exact hm.modify (fun o => o.similar_write slot key v) id
  | append id vs => exact hm.modify (fun o => o.similar_append vs) id
  | dropLast id => exact hm.modify (fun o => o.similar_dropLast) id
  | addScope | assign | declare | overwrite => exact hm

end Authored

end Machine

namespace Eval

open Machine

def authorship : Contract Function.Parsed where
  holds := Authored Function.Parsed
  keeps _ _ := True
  fails _ := True
  refl _ := trivial
  trans _ _ := trivial
  change hm hc _ := ⟨hm.change hc, trivial⟩
  enter _ hm := hm
  leave _ _ hm' _ := ⟨hm', trivial⟩
  join _ hm := hm
  joined _ _ hm' _ := ⟨hm', trivial⟩
  call _ hm _ := hm
  returned _ _ hm' _ := ⟨hm', trivial⟩
  thrown _ _ := trivial
  excuses _ _ := False
  excuses_retains _ h _ := h

theorem authorship_loops : LoopCongruence Function.Parsed .stay (authorship.Meets .stay) :=
  Contract.loopCongruence trivial

/-- The functions inside a parsed function are parsed, so its body makes closures of parsed
functions only. -/
theorem authored_activation {f g : Invoke} (hc : SameCalls .stay (authorship.Meets .stay) f g)
    (fuel : Nat) (callee : ObjectId) (receiver : Value) (args : List Value) :
    authorship.Meets .stay (activation f fuel callee receiver args)
      (activation g fuel callee receiver args) := by
  have h := authorship_loops
  have hfail {α : Type} (c : InternalCause) :
      authorship.Meets .stay (throw (.internal c) : Eval α) (throw (.internal c)) :=
    Contract.meets_throw trivial
  intro m hm
  refine .of_reading_stay ?_
  cases hkind : (m.heap.object callee).kind with
  | closure k home =>
    have hinner := (hm callee k home hkind).inner
    have hcall := callClosure_congr h.toCongruence hc hfail k hinner
      (fun _ _ => ⟨(rfl : fuel = fuel), h.toLooping⟩) home receiver args m hm
    rwa [Function.relocate_stay] at hcall
  | native name native =>
    refine h.runNative hc native receiver args (fun host _ => ?_) m hm
    exact h.runHost hc Frame.relocate_stay hfail host receiver args
  | plain | array | error => exact hfail _ m hm

theorem authored_calls (stop : Machine → Bool) (fuel : Nat) (id : ObjectId) (receiver : Value)
    (args : List Value) (frame : Frame) :
    authorship.Meets .stay (monitored (stopping stop) fuel id receiver args frame)
      (monitored (stopping stop) fuel id receiver args frame) := by
  induction fuel generalizing id receiver args frame with
  | zero => exact Contract.meets_throw trivial
  | succ fuel ih =>
    have hc : SameCalls .stay (authorship.Meets .stay) (monitored (stopping stop) fuel)
        (monitored (stopping stop) fuel) := authorship_loops.sameCalls ih
    intro m hm
    refine .entering hm frame fun _ => ?_
    have hcalled : Authored Function.Parsed { m with frames := frame :: m.frames } := hm
    exact (authored_activation hc fuel id receiver args _ hcalled).stopping trivial hcalled stop

theorem authored_activity (stop : Machine → Bool) (fuel : Nat) {α : Type} (a : Activity α)
    (ha : ∀ f ∈ a.functions, f.Parsed) :
    authorship.Meets .stay (a.run (monitored (stopping stop) fuel) fuel)
      (a.run (monitored (stopping stop) fuel) fuel) :=
  a.run_congr authorship_loops (authored_calls stop fuel) fuel ha

theorem authored_program {program : Block} (hprogram : ∀ f ∈ program.functions, f.Parsed)
    (stop : Machine → Bool) (fuel : Nat) {m : Machine} (hm : m.Authored Function.Parsed) :
    Authored Function.Parsed (final (runUntil stop fuel program m)) := by
  obtain ⟨o, statements⟩ := program
  have hbody := authored_activity stop fuel (.body statements) hprogram
  have hrun : authorship.Meets .stay
      (runBody (monitored (stopping stop) fuel) fuel statements >>= (·.expectNormal .program))
      (runBody (monitored (stopping stop) fuel) fuel statements >>= (·.expectNormal .program)) := by
    refine Contract.meets_bind hbody fun c => ?_
    cases c with
    | normal => exact Contract.meets_pure _
    | leave | skip | giveBack => exact Contract.meets_throw trivial
  have hrest : m.atRest.Authored Function.Parsed := hm
  exact (hrun m.atRest hrest).ends.1

end Eval

open Eval

/-- The machines of a session, between the runs in it and at the calls that these make: a run of a
source text, or a call from the host, may be looked at where it comes to a call or returns from one.
The host may bind functions of its own. -/
inductive Machine.InSession : Machine → Prop where
  | start (prelude : Bool) (maxCallDepth : Option UInt64) :
      InSession (Machine.start prelude maxCallDepth)
  | bindHost {m : Machine} (hm : InSession m) (name : String) (f : HostFunction) :
      InSession (m.addGlobal name (.host f))
  | program {m : Machine} (hm : InSession m) {source : Text.Source} {program : Block}
      (hprogram : Program.ofSource source = .ok program) (stop : Machine → Bool) (fuel : Nat) :
      InSession (final (runUntil stop fuel program m))
  | call {m : Machine} (hm : InSession m) (callee receiver : Value) (args : List Value)
      (stop : Machine → Bool) (fuel : Nat) :
      InSession (final (callValue (monitored (stopping stop) fuel) callee receiver args m))

theorem Machine.InSession.authored {m : Machine} (hm : m.InSession) :
    m.Authored Function.Parsed := by
  induction hm with
  | start prelude maxCallDepth => exact (start_admits _ prelude maxCallDepth).authored
  | bindHost _ name f ih => exact ih.alloc nofun
  | program _ hprogram stop fuel ih =>
    exact authored_program (Program.parsed_of_ofSource hprogram) stop fuel ih
  | call _ callee receiver args stop fuel ih =>
    exact (authored_activity stop fuel (.value callee receiver args) nofun _ ih).ends.1

/-- The text of a function object, in parentheses, is a program of one function expression, which is
the function of the object: it has the same name or none, the same parameters and the same body. -/
theorem function_text_reads_back {m : Machine} (hm : m.InSession) {id : ObjectId} {f : Function}
    {home : ScopeId} (hf : (m.heap.object id).kind = .closure f home) (invoke : Invoke)
    (args : List Value) (name : String) :
    ∃ text, Native.functionToString.run invoke (.object id) args m = .ok (.string text) m ∧
      ∃ program o o' f', Program.ofSource ⟨name, "(" ++ text ++ ")"⟩ = .ok program ∧
        program.statements = [.expression o (.function o' f')] ∧ f'.same f = true := by
  have htext : Native.functionText m.heap (.object id) = f.text := by
    simp only [Native.functionText, hf]
  refine ⟨f.text, ?_, (hm.authored id f home hf).read_back name⟩
  rw [← htext]
  rfl

def Object.Kind.closureText? : Object.Kind → Option String
  | .closure f _ => some f.text
  | _ => none

theorem Object.Kind.closure_of_text {k : Object.Kind} {text : String}
    (h : k.closureText? = some text) : ∃ f home, k = .closure f home ∧ f.text = text := by
  cases k with
  | closure f home => exact ⟨f, home, rfl, Option.some.inj h⟩
  | plain | array | native | error => cases h

/-- A function without a name, made in a call of another one. -/
theorem function_text_reads_back_inner :
    let source : Text.Source :=
      ⟨"script", "var f = function add(a,b) \x7b return function () \x7breturn a+ b\x7d; \x7d; f(1, 2);"⟩
    ∃ program, Program.ofSource source = .ok program ∧
      ∃ m f home, m = final (runUntil (fun _ => false) 5 program (Machine.start false none)) ∧
        (m.heap.object 34).kind = .closure f home ∧ f.text = "function () \x7breturn a+ b\x7d" ∧
        ∃ text, Native.functionToString.run (invoke 1) (.object 34) [] m = .ok (.string text) m ∧
          ∃ again o o' f', Program.ofSource ⟨"again", "(" ++ text ++ ")"⟩ = .ok again ∧
            again.statements = [.expression o (.function o' f')] ∧ f'.same f = true := by
  intro source
  have hcomputed : (Program.ofSource source).toOption.map (fun program =>
      ((final (runUntil (fun _ => false) 5 program (Machine.start false none))).heap.object
        34).kind.closureText?) = some (some "function () \x7breturn a+ b\x7d") := by
    decide +kernel
  obtain ⟨program, hprogram, hkind⟩ := Program.exists_of_map hcomputed
  have hm := (Machine.InSession.start false none).program hprogram (fun _ => false) 5
  -- only the closure of the machine matters from here on
  generalize hfinal : final (runUntil (fun _ => false) 5 program (Machine.start false none)) = m
    at hm hkind
  obtain ⟨f, home, hclosure, htext⟩ := Object.Kind.closure_of_text hkind
  refine ⟨program, hprogram, m, f, home, hfinal.symm, hclosure, htext, ?_⟩
  exact function_text_reads_back hm hclosure (invoke 1) [] "again"

end ScriptEngine
