import ScriptEngine.Proofs.Evaluation.Sealing

/-!
# What is in sight

Code that runs inside a scope sees what the scope binds: blocks, handlers and rounds of loops are
put below the current scope, and the body of a closure below the scope that it was made in. So it
makes no difference if names that the scope binds are looked up in another way, which does as it
likes where they are not bound. The code is followed from inside the scope, and closures that were
made there from their calls on; what other code does is not looked at.
-/

namespace ScriptEngine

open Eval

/-- Look-ups that may do anything where one of the names is not bound, and are the evaluator's
otherwise. -/
def Ways.SeesBound (names : List String) (look : String → Eval Value) : Prop :=
  ∀ name m, (name ∈ names → (m.scopes.lookup? m.current name).isSome) → look name m = lookup name m

/-- Only bodies of closures that were made inside a scope take the ways given. -/
def Ways.Choice.Within (s : ScopeId) (ways : Ways) (choice : Ways.Choice) : Prop :=
  ∀ m home, choice m home = .own ∨ choice m home = ways ∧ m.scopes.Inside s home

structure Machine.Sees (s : ScopeId) (names : List String) (inside : Prop) (m : Machine) :
    Prop where
  bound : ∀ name ∈ names, (m.scopes.getLocal? s name).isSome
  inside : inside → m.scopes.Inside s m.current

namespace Eval

variable {α β : Type} {m : Machine}

theorem bind_eq {x y : Eval α} {f g : α → Eval β} (hx : x m = y m)
    (hf : ∀ a m', y m = .ok a m' → f a m' = g a m') : (x >>= f) m = (y >>= g) m := by
  simp only [Bind.bind, EStateM.bind, hx]
  cases hr : y m with
  | ok a m' => exact hf a m' hr
  | error e m' => rfl

theorem always_eq {x y : Eval α} (hx : x m = y m) (after : Machine → Machine) :
    always x after m = always y after m := by
  simp only [always, hx]

theorem inScope_eq {x y : Eval α} {id : ScopeId}
    (hx : x { m with current := id } = y { m with current := id }) :
    inScope id x m = inScope id y m :=
  always_eq hx _

end Eval

namespace Seal

variable {s : ScopeId} {names : List String} {inside : Prop} {m m' : Machine}

abbrev Anywhere (s : ScopeId) : Machine → Prop :=
  (nothing s).Admitted (fun _ => True) (fun _ => True) fun _ => True

theorem anywhere (s : ScopeId) (m : Machine) : Anywhere s m :=
  admitted_nothing s _ _ _ m

/-- On machines that see the names the first run is the second one, and that keeps the scopes that
there are on all machines. -/
structure Sighted (s : ScopeId) (names : List String) (inside : Prop) {α : Type} (x y : Eval α) :
    Prop where
  keeps : (nothing s).Keeps (Anywhere s) y
  same : ∀ m, (nothing s).Sealed m → m.Sees s names inside → x m = y m

theorem stable_sees : (nothing s).Stable (·.Sees s names inside) := by
  refine fun m m' hm hk h =>
    ⟨fun name hname => hk.grows.bound _ _ (h.bound name hname), fun hin => ?_⟩
  rw [hk.current, hk.grows.inside_iff hm.wellScoped.current]
  exact h.inside hin

theorem Kept.sees_child {new : Scope} {parent : ScopeId}
    (hk : (nothing s).Kept { m with scopes := m.scopes.add new } m') (hm : (nothing s).Sealed m)
    (hbound : ∀ name ∈ names, (m.scopes.getLocal? s name).isSome)
    (hparent : new.parent = some parent)
    (hlt : parent < m.scopes.size) (hinside : inside → m.scopes.Inside s parent) :
    Machine.Sees s names inside { m' with current := m.scopes.size } where
  bound name hname :=
    ((ScopeTree.grows_add new).trans hk.grows).bound s name (hbound name hname)
  inside hin := (hk.inside_child hm hparent hlt).mpr (hinside hin)

namespace Sighted

variable {α β : Type}

theorem kept {x y : Eval α} (hx : Sighted s names inside x y) (hm : (nothing s).Sealed m) :
    (nothing s).Kept m (final (y m)) :=
  hx.keeps m hm (anywhere s m)

theorem refl {x : Eval α} (hx : (nothing s).Keeps (Anywhere s) x) : Sighted s names inside x x :=
  ⟨hx, fun _ _ _ => rfl⟩

theorem bind {x y : Eval α} {f g : α → Eval β} (hx : Sighted s names inside x y)
    (hf : ∀ a, Sighted s names inside (f a) (g a)) :
    Sighted s names inside (x >>= f) (y >>= g) where
  keeps := hx.keeps.bind stable_admitted fun a => (hf a).keeps
  same m hm h := by
    refine bind_eq (hx.same m hm h) fun a m' hr => ?_
    have hk := hx.kept hm
    rw [hr] at hk
    exact (hf a).same m' hk.sealed (stable_sees m m' hm hk h)

theorem kept_open (hm : (nothing s).Sealed m) {new : Scope} {parent : ScopeId}
    (hparent : new.parent = some parent) (hlt : parent < m.scopes.size) :
    (nothing s).Kept { m with scopes := m.scopes.add new } { m with scopes := m.scopes.add new } :=
  .refl (hm.kept_addScope hparent hlt).sealed

theorem same_child {x y : Eval α} (hx : Sighted s names inside x y) (hm : (nothing s).Sealed m)
    {new : Scope} {parent : ScopeId} (hparent : new.parent = some parent)
    (hlt : parent < m.scopes.size) (hbound : ∀ name ∈ names, (m.scopes.getLocal? s name).isSome)
    (hinside : inside → m.scopes.Inside s parent)
    (hk : (nothing s).Kept { m with scopes := m.scopes.add new } m') :
    inScope m.scopes.size x m' = inScope m.scopes.size y m' :=
  inScope_eq (hx.same _ (hk.sealed.enter hk.lt_size_child)
    (hk.sees_child hm hbound hparent hlt hinside))

theorem same_block {x y : Eval α} (hx : Sighted s names inside x y) (hm : (nothing s).Sealed m)
    (h : m.Sees s names inside)
    (hk : (nothing s).Kept { m with scopes := m.scopes.add (.block m.current) } m') :
    inScope m.scopes.size x m' = inScope m.scopes.size y m' :=
  hx.same_child hm rfl hm.wellScoped.current h.bound h.inside hk

theorem inBlock {x y : Eval α} (hx : Sighted s names inside x y) :
    Sighted s names inside (inBlock x) (inBlock y) where
  keeps := stmtCongruence.inBlock (y := y) hx.keeps
  same _ hm h := hx.same_block hm h (kept_open hm rfl hm.wellScoped.current)

theorem handling (param : Option Ident) (v : Value) {x y : Eval Completion}
    (hx : Sighted s names inside x y) :
    Sighted s names inside (handling param x v) (handling param y v) where
  keeps := stmtCongruence.handling (y := y) param v hx.keeps
  same m hm h := by
    let opened : Machine := { m with scopes := m.scopes.add (.block m.current) }
    have hopened : (nothing s).Kept opened opened := kept_open hm rfl hm.wellScoped.current
    cases param with
    | none => exact hx.inBlock.same_block hm h hopened
    | some p =>
      have hdeclare : (nothing s).KeepsAt opened (declareLocal m.scopes.size p.name v .var) :=
        keepsAt_declareLocal hopened.sealed (fun _ => List.not_mem_nil) v .var
      refine bind_eq (m := opened) rfl fun _ m' hr => ?_
      unfold KeepsAt at hdeclare
      rw [hr] at hdeclare
      exact hx.inBlock.same_block hm h hdeclare

theorem catching {x y : Eval Completion} {f g : Value → Eval Completion}
    (hx : Sighted s names inside x y) (hf : ∀ v, Sighted s names inside (f v) (g v)) :
    Sighted s names inside (catching x (some f)) (catching y (some g)) where
  keeps := keeps_catching stable_admitted hx.keeps fun v => (hf v).keeps
  same m hm h := by
    have hk := hx.kept hm
    simp only [Eval.catching, outcome, Bind.bind, EStateM.bind, hx.same m hm h]
    cases hr : y m with
    | ok c m' => rfl
    | error e m' =>
      rw [hr] at hk
      cases e with
      | thrown t => exact (hf t.value).same m' hk.sealed (stable_sees m m' hm hk h)
      | internal | outOfFuel => rfl

theorem finalizing {x y last last' : Eval Completion} (hx : Sighted s names inside x y)
    (hlast : Sighted s names inside last last') :
    Sighted s names inside (finalizing x (some last)) (finalizing y (some last')) where
  keeps := keeps_finalizing stable_admitted hx.keeps hlast.keeps
  same m hm h := by
    have hk := hx.kept hm
    have hrest (ended : Except Failure Completion) :
        Sighted s names inside (last >>= closing ended) (last' >>= closing ended) :=
      hlast.bind fun c => refl (keeps_closing ended c)
    cases hr : y m with
    | ok c m' =>
      rw [hr] at hk
      rw [finalizing_of_ok hr, finalizing_of_ok ((hx.same m hm h).trans hr)]
      exact (hrest _).same m' hk.sealed (stable_sees m m' hm hk h)
    | error e m' =>
      rw [hr] at hk
      by_cases he : e = .outOfFuel
      · subst he
        rw [finalizing_of_outOfFuel hr, finalizing_of_outOfFuel ((hx.same m hm h).trans hr)]
      · rw [finalizing_of_error he hr, finalizing_of_error he ((hx.same m hm h).trans hr)]
        exact (hrest _).same m' hk.sealed (stable_sees m m' hm hk h)

theorem iteration (names' : List String) {x y : Eval Completion} (hx : Sighted s names inside x y) :
    Sighted s names inside (iteration names' x) (iteration names' y) where
  keeps := keeps_iteration names' hx.keeps
  same m hm h := by
    let opened : Machine := { m with scopes := m.scopes.add (.block m.current) }
    have hopened : (nothing s).Kept opened opened := kept_open hm rfl hm.wellScoped.current
    have hcopy : (nothing s).KeepsAt opened (copyInto m.current m.scopes.size names') :=
      keepsAt_copyInto hopened.sealed (Nat.ne_of_gt hm.lt_size) names'
    refine bind_eq (m := opened) rfl fun _ m' hr => ?_
    unfold KeepsAt at hcopy
    rw [hr] at hcopy
    exact always_eq (hx.same_block hm h hcopy) _

theorem loopBody (names' : List String) {x y : Eval Completion} (hx : Sighted s names inside x y) :
    Sighted s names inside (loopBody names' x) (loopBody names' y) := by
  unfold Eval.loopBody
  split
  · exact hx
  · exact hx.iteration names'

theorem sequential : Sequential (Sighted s names inside) where
  pure _ := refl fun _ hm _ => .refl hm
  bind := bind
  outOfFuel := refl fun _ hm _ => keepsAt_throw hm _

theorem looping : Looping .stay (Sighted s names inside) :=
  sequential.looping inBlock fun names' _ _ hx => hx.loopBody names'

theorem basic : BasicCongruence .stay (Sighted s names inside) where
  toCompositional := sequential.toCompositional
  ofReading hk := by
    simp only [Machine.relocate_stay] at hk
    exact ⟨fun m => (hk m).keeps m, fun m => (hk m).same m⟩
  throwValue v := refl ((basicCongruence stable_admitted).throwValue v)
  alloc o hf hn := by
    rw [Object.relocate_stay]
    exact refl ((basicCongruence stable_admitted).alloc o hf hn)
  writeProperty id key v := refl ((basicCongruence stable_admitted).writeProperty id key v)

theorem body : BodyCongruence (fun _ => True) (fun _ => True) (fun _ => True) .stay
    (Sighted s names inside) where
  toBasicCongruence := basic
  define id key v := refl (stmtCongruence.define id key v)
  functionValue hf := by
    rw [Function.relocate_stay]
    exact refl (stmtCongruence.functionValue hf)
  assign hname v := refl (stmtCongruence.assign hname v)
  newClosure hf := by
    rw [Function.relocate_stay]
    exact refl (stmtCongruence.newClosure hf)
  declare v kind hname := refl (stmtCongruence.declare v hname)
  inBlock := inBlock
  handling param v _ _ hx := by
    rw [Relocation.ident_stay, Option.map_id_fun]
    exact hx.handling param v
  catching := catching

theorem hoistAll (ss : List Stmt) :
    Sighted s names inside (Stmt.hoistAll ss) (Stmt.hoistAll ss) := by
  have hhoist : Sighted s names inside (Stmt.hoistAll ss)
    (Stmt.hoistAll (Stmt.relocateAll .stay ss)) :=
    Stmt.hoistAll_congr body ss (fun _ _ => trivial) fun _ _ _ _ => trivial
  rwa [Stmt.relocateAll_stay] at hhoist

theorem native : NativeCongruence .stay (Sighted s names inside) where
  toBasicCongruence := basic
  append id vs := refl fun m hm _ => hm.kept_modify (fun o => o.similar_append vs) id
  dropLast id := refl fun m hm _ => hm.kept_modify (fun o => o.similar_dropLast) id
  whileJoining id x y hx := by
    refine ⟨(nativeCongruence stable_admitted fun m joining _ => anywhere s _).whileJoining (y := y)
      id hx.keeps, fun m hm h => ?_⟩
    exact always_eq (m := { m with joining := id :: m.joining })
      (hx.same _ (hm.congr rfl rfl hm.wellScoped.current) ⟨h.bound, h.inside⟩) _

theorem sameCalls {f g : Invoke}
    (hi : ∀ id receiver args frame,
      Sighted s names inside (f id receiver args frame) (g id receiver args frame)) :
    SameCalls .stay (Sighted s names inside) f g := by
  refine basic.sameCalls fun id receiver args frame => ?_
  rw [Frame.relocate_stay]
  exact hi id receiver args frame

theorem mono {x y : Eval α} (hx : Sighted s names False x y) : Sighted s names inside x y :=
  ⟨hx.keeps, fun m hm h => hx.same m hm ⟨h.bound, False.elim⟩⟩

theorem entering (frame : Frame) {x y : Eval Value} (hx : Sighted s names inside x y) :
    Sighted s names inside (entering frame x) (entering frame y) := by
  refine ⟨(keeps_entering frame (hx.keeps.mono fun m _ _ => anywhere s m)).mono
    fun _ _ _ => trivial,
    fun m hm h => bind_eq rfl fun full m' hr => ?_⟩
  cases hr
  split
  · rfl
  · exact always_eq (m := { m with frames := frame :: m.frames })
      (hx.same _ (hm.congr rfl rfl hm.wellScoped.current) ⟨h.bound, h.inside⟩) _

section Calls

variable {look : String → Eval Value} (hlook : Ways.SeesBound names look)

include hlook

theorem waysCongruence {ways : Ways} (hways : ways = .own ∨ ways = .looking look ∧ inside)
    (f g : Invoke) (n : Nat) :
    WaysCongruence ways f g n n (fun _ => True) (fun _ => True) (fun _ => True) .stay
      (Sighted s names inside) where
  toBodyCongruence := body
  look name := by
    refine ⟨(basicCongruence stable_admitted).lookup name, fun m _ h => ?_⟩
    rcases hways with rfl | ⟨rfl, hinside⟩
    · rfl
    · exact hlook name m fun hname => (h.inside hinside).lookup?_isSome (h.bound name hname)
  finishing hx _ hlast := by
    rcases hways with rfl | ⟨rfl, -⟩
    · exact hx.finalizing hlast
    · exact hx.finalizing hlast

variable {choice : Ways.Choice} (hchoice : choice.Within s (.looking look))
variable {f g : Invoke} (hcalls : ∀ id receiver args frame,
  Sighted s names False (f id receiver args frame) (g id receiver args frame))

include hcalls

theorem runAll {ways : Ways} (hways : ways = .own ∨ ways = .looking look ∧ inside) (n : Nat)
    (last : Option Value) (ss : List Stmt) :
    Sighted s names inside (Stmt.runAllWith ways f n last ss) (Stmt.runAll g n last ss) := by
  have hrun := Stmt.runAllWith_congr (waysCongruence (s := s) hlook hways f g n)
    (sameCalls fun id receiver args frame => (hcalls id receiver args frame).mono) last ss
    (fun _ _ => trivial) (fun _ _ => trivial) (fun _ _ _ _ => trivial) fun _ _ => ⟨rfl, looping⟩
  rwa [Stmt.relocateAll_stay] at hrun

theorem runBody {ways : Ways} (hways : ways = .own ∨ ways = .looking look ∧ inside) (n : Nat)
    (ss : List Stmt) :
    Sighted s names inside (runBodyWith ways f n ss) (runBody g n ss) :=
  (hoistAll ss).bind fun _ => runAll hlook hcalls hways n none ss

theorem callClosure {ways : Ways} {home : ScopeId}
    (hways : ways = .own ∨ ways = .looking look ∧ m.scopes.Inside s home)
    (hm : (nothing s).Sealed m) (hhome : home < m.scopes.size)
    (hbound : ∀ name ∈ names, (m.scopes.getLocal? s name).isSome) (n : Nat) (k : Function)
    (receiver : Value) (args : List Value) :
    callClosureWith ways f n k home receiver args m = callClosure g n k home receiver args m := by
  let opened : Machine := { m with scopes := m.scopes.add (.function home receiver) }
  have hopened : (nothing s).Kept opened opened := kept_open hm rfl hhome
  have hbind := keepsAt_bindParams hopened.sealed (Nat.ne_of_gt hm.lt_size) k.params args
  refine bind_eq (m := opened) rfl fun _ m' hr => ?_
  unfold KeepsAt at hbind
  rw [hr] at hbind
  have hbody := runBody (s := s) hlook hcalls hways n k.body.statements
  exact bind_eq (hbody.same_child hm rfl hhome hbound (fun h => h) hbind) fun _ _ _ => rfl

include hchoice

theorem activation (n : Nat) (id : ObjectId) (receiver : Value) (args : List Value) :
    Sighted s names False (activationWith f n choice id receiver args)
      (activation g n id receiver args) := by
  have hkeeps : ∀ id receiver args frame,
      (nothing s).Keeps (fun _ => True) (g id receiver args frame) :=
    fun id receiver args frame => (hcalls id receiver args frame).keeps.mono fun m _ _ =>
      anywhere s m
  refine ⟨(keeps_activation hkeeps n id receiver args).mono fun _ _ _ => trivial, fun m hm h => ?_⟩
  refine bind_eq rfl fun kind m' hr => ?_
  obtain ⟨hkind, rfl⟩ : (m.heap.object id).kind = kind ∧ m = m' := by
    cases hr
    exact ⟨rfl, rfl⟩
  cases kind with
  | closure k home =>
    have hhome := hm.wellScoped.homes id k home hkind
    exact callClosure hlook hcalls (hchoice m home) hm hhome h.bound n k receiver args
  | native name native =>
    have hc := sameCalls hcalls
    have hfail (c : InternalCause) :
        Sighted s names False (throw (.internal c) : Eval Value) (throw (.internal c)) :=
      refl fun _ hm _ => keepsAt_throw hm _
    have hnative : Sighted s names False (native.run f receiver args)
      (native.run g receiver args) :=
      Sighted.native.runNative hc native receiver args fun host _ =>
        Sighted.native.runHost hc Frame.relocate_stay hfail host receiver args
    exact hnative.same m hm h
  | plain | array | error => rfl

omit hcalls

theorem invoke (fuel : Nat) (id : ObjectId) (receiver : Value) (args : List Value) (frame : Frame) :
    Sighted s names False (invokeWith choice fuel id receiver args frame)
      (Eval.invoke fuel id receiver args frame) := by
  induction fuel generalizing id receiver args frame with
  | zero => exact refl fun _ hm _ => keepsAt_throw hm _
  | succ fuel ih => exact (activation hlook hchoice ih fuel id receiver args).entering frame

end Calls

end Sighted

end Seal

end ScriptEngine
