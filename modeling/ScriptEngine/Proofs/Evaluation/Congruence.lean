import ScriptEngine.Proofs.Evaluation.Relocation
import ScriptEngine.Proofs.Evaluation.Ways
import ScriptEngine.Syntax.Functions

/-!
# Congruences of the evaluator

A congruence relates runs and is respected by every operation that the evaluator is built from. Two
evaluators that differ only in how they make calls are then related on every tree, provided that
their calls are: that is one induction over the whole evaluator, done here once. The second
evaluator may also run on a relocated machine. What a particular congruence says about the machine
is left open.

Expressions, natives and statements each ask for less than all operations, and a relation may
respect what they ask for without being a congruence: it may be about one scope, or about some names
only.
-/

namespace ScriptEngine

open Eval

structure Eval.Compositional (R : ∀ {α : Type}, Eval α → Eval α → Prop) : Prop where
  pure {α : Type} (a : α) : R (Pure.pure a) (Pure.pure a)
  bind {α β : Type} {x y : Eval α} {f g : α → Eval β} (hx : R x y) (hf : ∀ a, R (f a) (g a)) :
    R (x >>= f) (y >>= g)

inductive Eval.IfAny (R : Eval Value → Eval Value → Prop) :
    Option (Eval Value) → Option (Eval Value) → Prop where
  | none : IfAny R none none
  | some {x y : Eval Value} (h : R x y) : IfAny R (some x) (some y)

structure Eval.Sequential (R : ∀ {α : Type}, Eval α → Eval α → Prop) : Prop
    extends Compositional R where
  outOfFuel {α : Type} : R (throw .outOfFuel : Eval α) (throw .outOfFuel)

namespace Eval.Sequential

variable {R : ∀ {α : Type}, Eval α → Eval α → Prop}

theorem whileLoop (h : Sequential R) {condition condition' : Eval Value}
    {body body' : Eval Completion} (hcondition : R condition condition') (hbody : R body body')
    (n : Nat) : R (whileLoop condition body n) (whileLoop condition' body' n) := by
  induction n with
  | zero => exact h.outOfFuel
  | succ n ih =>
    refine h.bind hcondition fun v => ?_
    split
    · refine h.bind hbody fun c => ?_
      split
      · exact h.pure _
      · exact h.pure _
      · exact ih
      · exact ih
    · exact h.pure _

theorem holds (h : Sequential R) {condition condition' : Option (Eval Value)}
    (hcondition : IfAny R condition condition') : R (holds condition) (holds condition') := by
  cases hcondition with
  | none => exact h.pure _
  | some hcondition => exact h.bind hcondition fun _ => h.pure _

theorem forLoop (h : Sequential R) {condition condition' update update' : Option (Eval Value)}
    (hcondition : IfAny R condition condition') (hupdate : IfAny R update update')
    {body body' : Eval Completion} (hbody : R body body') (n : Nat) :
    R (forLoop condition update body n) (forLoop condition' update' body' n) := by
  induction n with
  | zero => exact h.outOfFuel
  | succ n ih =>
    refine h.bind (h.holds hcondition) fun goes => ?_
    split
    · refine h.bind hbody fun c => ?_
      -- what a round does after its body, unless the loop is left
      cases c with
      | leave | giveBack => exact h.pure _
      | normal | skip =>
        cases hupdate with
        | none => exact ih
        | some hupdate => exact h.bind hupdate fun _ => ih
    · exact h.pure _

end Eval.Sequential

/-- What coercions and operators ask for: the machine is read, and objects that are no functions are
made and written to. The second run goes over relocated trees. -/
structure Eval.BasicCongruence (ρ : Relocation) (R : ∀ {α : Type}, Eval α → Eval α → Prop) : Prop
    extends Compositional R where
  ofReading {α β γ : Type} {f : Machine → α} {g : Machine → β} {k : α → Eval γ} {k' : β → Eval γ}
    (hk : ∀ m, R (k (f m)) (k' (g (m.relocate ρ)))) :
    R (Eval.reading f >>= k) (Eval.reading g >>= k')
  throwValue {α : Type} (v : Value) : R (throwValue v : Eval α) (throwValue v)
  alloc (o : Object) (hf : ∀ f s, o.kind ≠ .closure f s) (hn : ∀ n f, o.kind ≠ .native n f) :
    R (alloc o) (alloc (o.relocate ρ))
  writeProperty (id : ObjectId) (key : String) (v : Value) :
    R (writeProperty id key v) (writeProperty id key v)

structure Eval.NativeCongruence (ρ : Relocation) (R : ∀ {α : Type}, Eval α → Eval α → Prop) : Prop
    extends BasicCongruence ρ R where
  append (id : ObjectId) (vs : List Value) :
    R (modify fun m => { m with heap := m.heap.modify id (·.append vs) })
      (modify fun m => { m with heap := m.heap.modify id (·.append vs) })
  dropLast (id : ObjectId) :
    R (modify fun m => { m with heap := m.heap.modify id (·.dropLast) })
      (modify fun m => { m with heap := m.heap.modify id (·.dropLast) })
  whileJoining {α : Type} (id : ObjectId) {x y : Eval α} (hx : R x y) :
    R (Native.whileJoining id x) (Native.whileJoining id y)

/-- What expressions ask for. Functions are restricted to those that satisfy `P`, and assignments to
names that satisfy `W`. -/
structure Eval.ExprCongruence (P : Function → Prop) (W : String → Prop) (ρ : Relocation)
    (R : ∀ {α : Type}, Eval α → Eval α → Prop) : Prop extends BasicCongruence ρ R where
  define (id : ObjectId) (key : String) (v : Value) : R (define id key v) (define id key v)
  functionValue {f : Function} (hf : P f) : R (functionValue f) (functionValue (f.relocate ρ))
  assign {name : String} (hname : W name) (v : Value) : R (assign name v) (assign name v)

/-- What statements ask for, loops and last blocks apart. Names that are declared to the scope that
holds `var` bindings are restricted to those that satisfy `V`. -/
structure Eval.BodyCongruence (P : Function → Prop) (W V : String → Prop) (ρ : Relocation)
    (R : ∀ {α : Type}, Eval α → Eval α → Prop) : Prop extends ExprCongruence P W ρ R where
  newClosure {f : Function} (hf : P f) :
    R (currentScope >>= newFunction f) (currentScope >>= newFunction (f.relocate ρ))
  declare {name : String} (v : Value) {kind : BindingKind} (hname : kind = .var → V name) :
    R (declare name v kind) (declare name v kind)
  inBlock {α : Type} {x y : Eval α} (hx : R x y) : R (inBlock x) (inBlock y)
  handling (param : Option Ident) (v : Value) {x y : Eval Completion} (hx : R x y) :
    R (handling param x v) (handling (param.map ρ.ident) y v)
  catching {x y : Eval Completion} {f g : Value → Eval Completion} (hx : R x y)
    (hf : ∀ v, R (f v) (g v)) : R (catching x (some f)) (catching y (some g))

structure Eval.StmtCongruence (P : Function → Prop) (W V : String → Prop) (ρ : Relocation)
    (R : ∀ {α : Type}, Eval α → Eval α → Prop) : Prop extends BodyCongruence P W V ρ R where
  finalizing {x y last last' : Eval Completion} (hx : R x y) (hlast : R last last') :
    R (finalizing x (some last)) (finalizing y (some last'))

/-- What loops ask for. What a round of a `for` with variables of its own copies back is what was
declared before, so the rounds are not independent of the declarations. -/
structure Eval.Looping (ρ : Relocation) (R : ∀ {α : Type}, Eval α → Eval α → Prop) : Prop
    extends Sequential R where
  rounds {ways : Ways} {f g : Invoke} {kind : BindingKind} (hkind : kind ≠ .var)
    {ds : List Declarator}
    (hdeclared : ∀ d ∈ ds, R (d.runWith ways f kind) ((d.relocate ρ).run g kind))
    {condition condition' update update' : Option (Eval Value)}
    (hcondition : IfAny R condition condition') (hupdate : IfAny R update update')
    {body body' : Eval Completion} (hbody : R body body') (n : Nat) :
    R (inBlock do
        Declarator.runAllWith ways f kind ds
        Eval.forLoop condition update (loopBody (ds.map Declarator.name) body) n)
      (inBlock do
        Declarator.runAll g kind (Declarator.relocateAll ρ ds)
        Eval.forLoop condition' update' (loopBody (ds.map Declarator.name) body') n)

section Looping

variable {R : ∀ {α : Type}, Eval α → Eval α → Prop}

theorem Eval.Compositional.declarators (h : Compositional R) {ways : Ways} {f g : Invoke}
    {kind : BindingKind} {ds : List Declarator}
    (hds : ∀ d ∈ ds, R (d.runWith ways f kind) (d.run g kind)) :
    R (Declarator.runAllWith ways f kind ds) (Declarator.runAll g kind ds) := by
  induction ds with
  | nil => exact h.pure _
  | cons d ds ih =>
    rw [List.forall_mem_cons] at hds
    exact h.bind hds.1 fun _ => ih hds.2

theorem Eval.Sequential.looping (h : Sequential R)
    (hblock : ∀ {α : Type} {x y : Eval α}, R x y → R (inBlock x) (inBlock y))
    (hloopBody : ∀ names {x y : Eval Completion}, R x y → R (loopBody names x) (loopBody names y)) :
    Looping .stay R where
  toSequential := h
  rounds := by
    intro ways f g kind _ ds hds condition condition' update update' hcondition hupdate body body'
      hbody n
    have hrounds := h.forLoop hcondition hupdate (hloopBody (ds.map Declarator.name) hbody) n
    simp only [Declarator.relocate_stay] at hds
    rw [Declarator.relocateAll_stay]
    exact hblock (h.bind (h.declarators hds) fun _ => hrounds)

end Looping

/-- A relation between runs that the operations of the machine respect. New closures are restricted
to functions that satisfy `P`. -/
structure Eval.Congruence (P : Function → Prop) (ρ : Relocation)
    (R : ∀ {α : Type}, Eval α → Eval α → Prop) : Prop extends NativeCongruence ρ R where
  allocClosure {o : Object} {f : Function} {s : ScopeId}
      (hkind : o.kind = .closure f s) (hf : P f) :
    R (Eval.alloc o) (Eval.alloc (o.relocate ρ))
  define (id : ObjectId) (key : String) (v : Value) : R (define id key v) (define id key v)
  addScope (s : Scope) : R (addScope s) (addScope s)
  assign (name : String) (v : Value) : R (assign name v) (assign name v)
  declareLocal (id : ScopeId) (name : String) (v : Value) (kind : BindingKind) :
    R (declareLocal id name v kind) (declareLocal id name v kind)
  inScope {α : Type} (id : ScopeId) {x y : Eval α} (hx : R x y) : R (inScope id x) (inScope id y)
  catching {x y : Eval Completion} {f g : Value → Eval Completion} (hx : R x y)
    (hf : ∀ v, R (f v) (g v)) : R (catching x (some f)) (catching y (some g))
  finalizing {x y last last' : Eval Completion} (hx : R x y) (hlast : R last last') :
    R (finalizing x (some last)) (finalizing y (some last'))

structure Eval.LoopCongruence (P : Function → Prop) (ρ : Relocation)
    (R : ∀ {α : Type}, Eval α → Eval α → Prop) : Prop extends Congruence P ρ R, Looping ρ R

structure Eval.SameCalls (ρ : Relocation) (R : ∀ {α : Type}, Eval α → Eval α → Prop)
    (f g : Invoke) : Prop where
  value (callee receiver : Value) (args : List Value) :
    R (callValue f callee receiver args) (callValue g callee receiver args)
  site (o : Origin) (source : String) (callee receiver : Value) (args : List Value) :
    R (callAt f o source callee receiver args) (callAt g (ρ.origin o) source callee receiver args)
  construct (o : Origin) (source : String) (callee : Value) (args : List Value) :
    R (constructAt f o source callee args) (constructAt g (ρ.origin o) source callee args)

namespace Eval.BasicCongruence

variable {ρ : Relocation} {R : ∀ {α : Type}, Eval α → Eval α → Prop} (h : BasicCongruence ρ R)

include h

theorem reading {α : Type} {f g : Machine → α} (hfg : ∀ m, g (m.relocate ρ) = f m) :
    R (reading f) (reading g) := by
  show R (Eval.reading f >>= Pure.pure) (Eval.reading g >>= Pure.pure)
  refine h.ofReading fun m => ?_
  rw [hfg]
  exact h.pure _

theorem currentScope : R currentScope currentScope :=
  h.reading (by simp)

theorem newPlain : R newPlain newPlain :=
  h.alloc _ (by simp [Object.bare]) (by simp [Object.bare])

theorem newArray (items : Array Value) : R (newArray items) (newArray items) :=
  h.bind (h.alloc _ (by simp [Object.bare]) (by simp [Object.bare])) fun _ => h.pure _

theorem newError (name message : String) : R (newError name message) (newError name message) :=
  h.bind (h.alloc _ (by simp [Object.bare, Object.define]) (by simp [Object.bare, Object.define]))
    fun _ => h.pure _

theorem throwNamed {α : Type} (c : ErrorClass) (message : String) :
    R (throwNamed c message : Eval α) (throwNamed c message) :=
  h.bind (h.newError _ _) fun v => h.throwValue v

theorem lookup (name : String) : R (lookup name) (lookup name) := by
  refine h.bind (h.reading (by simp)) fun found => ?_
  split
  · exact h.pure _
  · exact h.throwNamed _ _

theorem checkBase (access : Access) (base : Value) (key source : String) :
    R (checkBase access base key source) (checkBase access base key source) := by
  unfold Eval.checkBase
  split
  · exact h.bind (h.reading (by simp)) fun _ => h.throwNamed _ _
  · exact h.pure _

theorem readPlace {ways : Ways} (hlook : ∀ name, R (ways.look name) (Eval.lookup name))
    (place : Place) : R (place.readWith ways) place.read := by
  cases place with
  | binding name => exact hlook name
  | property base key => exact h.reading (by simp)

section Coercions

variable {f g : Invoke} (hc : SameCalls ρ R f g)

include hc

theorem toPrimitive (v : Value) : R (toPrimitive f v) (toPrimitive g v) := by
  unfold Eval.toPrimitive
  split
  · refine h.bind (h.reading (by simp)) fun method =>
      h.bind (h.reading (by simp)) fun callable => ?_
    split
    · refine h.bind (hc.value _ _ _) fun result => ?_
      split
      · exact h.throwNamed _ _
      · exact h.pure _
    · exact h.throwNamed _ _
  · exact h.pure _

theorem toNumber (v : Value) : R (toNumber f v) (toNumber g v) := by
  unfold Eval.toNumber
  split
  · exact h.pure _
  · exact h.bind (h.toPrimitive hc v) fun _ => h.pure _

theorem toText (v : Value) : R (toText f v) (toText g v) := by
  unfold Eval.toText
  split
  · exact h.pure _
  · exact h.bind (h.toPrimitive hc v) fun _ => h.pure _

theorem toKey (v : Value) : R (toKey f v) (toKey g v) :=
  h.toText hc v

theorem looseEquals (a b : Value) : R (looseEquals f a b) (looseEquals g a b) := by
  unfold Eval.looseEquals
  split
  · exact h.pure _
  · split
    · exact h.pure _
    · exact h.bind (h.toPrimitive hc _) fun _ => h.pure _
  · split
    · exact h.pure _
    · exact h.bind (h.toPrimitive hc _) fun _ => h.pure _
  · exact h.pure _

theorem add (left right : Value) : R (add f left right) (add g left right) := by
  refine h.bind (h.toPrimitive hc left) fun a => h.bind (h.toPrimitive hc right) fun b => ?_
  split <;> exact h.pure _

theorem compareValues (left right : Value) :
    R (compareValues f left right) (compareValues g left right) := by
  refine h.bind (h.toPrimitive hc left) fun a => h.bind (h.toPrimitive hc right) fun b => ?_
  split <;> exact h.pure _

theorem arithmetic (op : Float → Float → Float) (left right : Value) :
    R (arithmetic f op left right) (arithmetic g op left right) :=
  h.bind (h.toNumber hc left) fun _ => h.bind (h.toNumber hc right) fun _ => h.pure _

theorem onWords (op : Int32 → Int32 → Int32) (left right : Value) :
    R (onWords f op left right) (onWords g op left right) :=
  h.bind (h.toNumber hc left) fun _ => h.bind (h.toNumber hc right) fun _ => h.pure _

theorem ordered (accepts : Option Ordering → Bool) (left right : Value) :
    R (ordered f accepts left right) (ordered g accepts left right) :=
  h.bind (h.compareValues hc left right) fun _ => h.pure _

theorem binary (op : BinaryOp) (left right : Value) :
    R (binary f op left right) (binary g op left right) := by
  cases op <;> dsimp only [Eval.binary]
  case add => exact h.add hc left right
  case sub | mul | div | rem | exp => exact h.arithmetic hc _ left right
  case looseEq | looseNe => exact h.bind (h.looseEquals hc left right) fun _ => h.pure _
  case strictEq | strictNe => exact h.pure _
  case less | lessEq | greater | greaterEq => exact h.ordered hc _ left right
  case bitAnd | bitOr | bitXor | shiftLeft | shiftRight => exact h.onWords hc _ left right
  case shiftRightZero =>
    exact h.bind (h.toNumber hc left) fun _ => h.bind (h.toNumber hc right) fun _ => h.pure _

theorem setProperty (base : Value) (key : String) (v : Value) :
    R (setProperty f base key v) (setProperty g base key v) := by
  unfold Eval.setProperty
  split
  · refine h.bind (h.reading (by simp)) fun isArray => ?_
    split
    · exact h.bind (h.toNumber hc v) fun _ => h.writeProperty _ _ _
    · exact h.writeProperty _ _ _
  · exact h.pure _

theorem unary (op : UnaryOp) (v : Value) : R (unary f op v) (unary g op v) := by
  cases op with
  | not => exact h.pure _
  | neg | plus | bitNot => exact h.bind (h.toNumber hc v) fun _ => h.pure _
  | typeOf => exact h.bind (h.reading (by simp)) fun _ => h.pure _

end Coercions

theorem thisArray (v : Value) (method : String) :
    R (Native.thisArray v method) (Native.thisArray v method) := by
  unfold Native.thisArray
  split
  · refine h.bind (h.reading (by simp)) fun found => ?_
    split
    · exact h.pure _
    · exact h.throwNamed _ _
  · exact h.throwNamed _ _

theorem sameCalls {f g : Invoke}
    (hi : ∀ id receiver args frame,
      R (f id receiver args frame) (g id receiver args (frame.relocate ρ))) :
    SameCalls ρ R f g := by
  refine ⟨fun callee receiver args => ?_, fun o source callee receiver args => ?_,
    fun o source callee args => ?_⟩
  · refine h.bind (h.reading (by simp)) fun found => ?_
    split
    · exact h.bind (h.reading (by simp)) fun _ => h.throwNamed _ _
    · refine h.ofReading fun m => ?_
      simp only [Machine.heap_relocate, Machine.frames_relocate, Heap.functionName_relocate,
        ← Frame.relocate_innerFrame]
      exact hi _ _ _ _
  · refine h.bind (h.reading (by simp)) fun found => ?_
    split
    · exact h.throwNamed _ _
    · refine h.bind (h.reading (by simp)) fun name => ?_
      rw [← Frame.relocate_origin]
      exact hi _ _ _ _
  · refine h.bind (h.reading (by simp)) fun found => ?_
    split
    · exact h.throwNamed _ _
    · refine h.bind (h.reading (by simp)) fun name => h.ofReading fun m => ?_
      simp only [Machine.heap_relocate, Heap.object_relocate, Object.kind_relocate,
        ← Frame.relocate_origin]
      cases (m.heap.object _).kind with
      | closure k scope =>
        refine h.bind (h.reading (by simp)) fun prototype => ?_
        refine h.bind (h.alloc _ (by simp [Object.bare]) (by simp [Object.bare])) fun fresh => ?_
        exact h.bind (hi _ _ _ _) fun _ => h.pure _
      | plain | array | native | error => exact hi _ _ _ _

end Eval.BasicCongruence

namespace Eval.NativeCongruence

variable {ρ : Relocation} {R : ∀ {α : Type}, Eval α → Eval α → Prop} (h : NativeCongruence ρ R)
variable {f g : Invoke} (hc : SameCalls ρ R f g)

include h hc

theorem positionArg (v : Value) (length missing : Nat) :
    R (Native.positionArg f v length missing) (Native.positionArg g v length missing) := by
  unfold Native.positionArg
  split
  · exact h.pure _
  · exact h.bind (h.toNumber hc v) fun _ => h.pure _

theorem sliceBounds (args : List Value) (length : Nat) :
    R (Native.sliceBounds f args length) (Native.sliceBounds g args length) :=
  h.bind (h.positionArg hc _ _ _) fun _ => h.bind (h.positionArg hc _ _ _) fun _ => h.pure _

theorem elementTexts (vs : List Value) :
    R (Native.elementTexts f vs) (Native.elementTexts g vs) := by
  induction vs with
  | nil => exact h.pure _
  | cons v vs ih =>
    dsimp only [Native.elementTexts]
    split
    · exact h.bind (h.pure _) fun _ => h.bind ih fun _ => h.pure _
    · exact h.bind (h.toText hc v) fun _ => h.bind ih fun _ => h.pure _

theorem joinArray (id : ObjectId) (separator : String) :
    R (Native.joinArray f id separator) (Native.joinArray g id separator) := by
  refine h.bind (h.reading (by simp)) fun joining => ?_
  split
  · exact h.pure _
  · refine h.bind (h.reading (by simp)) fun items => ?_
    exact h.bind (h.whileJoining id (h.elementTexts hc items)) fun _ => h.pure _

theorem mapElements (callback array : Value) (i : Nat) (vs : List Value) :
    R (Native.mapElements f callback array i vs) (Native.mapElements g callback array i vs) := by
  induction vs generalizing i with
  | nil => exact h.pure _
  | cons v vs ih => exact h.bind (hc.value _ _ _) fun _ => h.bind (ih (i + 1)) fun _ => h.pure _

theorem sumArgs (acc : Float) (vs : List Value) :
    R (Native.sumArgs f acc vs) (Native.sumArgs g acc vs) := by
  induction vs generalizing acc with
  | nil => exact h.pure _
  | cons v vs ih => exact h.bind (h.toNumber hc v) fun x => ih (acc + x)

theorem errorPart (id : ObjectId) (key missing : String) :
    R (Native.errorPart f id key missing) (Native.errorPart g id key missing) := by
  refine h.bind (h.reading (by simp)) fun found => ?_
  split
  · exact h.pure _
  · exact h.toText hc _

theorem runHost (hplaces : Frame.relocate ρ = id)
    (hfail : ∀ c, R (throw (.internal c) : Eval Value) (throw (.internal c)))
    (host : HostFunction) (receiver : Value) (args : List Value) :
    R (Native.runHost f host receiver args) (Native.runHost g host receiver args) := by
  cases host with
  | sum => exact h.bind (h.sumArgs hc _ _) fun _ => h.pure _
  | fail => exact h.throwNamed _ _
  | raise => exact h.throwValue _
  | internal => exact hfail _
  | apply => exact hc.value _ _ _
  | self | same => exact h.pure _
  | args => exact h.newArray _
  | stack => exact h.bind (h.reading (by simp [hplaces])) fun _ => h.newArray _
  | prim => exact h.toPrimitive hc _
  | str | key => exact h.bind (h.toText hc _) fun _ => h.pure _
  | loose => exact h.bind (h.looseEquals hc _ _) fun _ => h.pure _
  | display => exact h.bind (h.reading (by simp)) fun _ => h.pure _
  | peek => exact h.bind (h.toText hc _) fun _ => h.reading (by simp)
  | getProperty => exact h.bind (h.toText hc _) fun _ => h.reading (by simp)
  | setProperty =>
    refine h.bind (h.toText hc _) fun key => ?_
    exact h.bind (h.setProperty hc _ _ _) fun _ => h.pure _
  | keys => exact h.bind (h.reading (by simp)) fun _ => h.newArray _
  | makeError =>
    exact h.bind (h.toText hc _) fun _ => h.bind (h.toText hc _) fun _ => h.newError _ _

theorem runNative (native : Native) (receiver : Value) (args : List Value)
    (hhost : ∀ host, native = .host host →
      R (Native.runHost f host receiver args) (Native.runHost g host receiver args)) :
    R (native.run f receiver args) (native.run g receiver args) := by
  cases native <;> dsimp only [Native.run]
  case objectConstructor =>
    split
    · exact h.pure _
    · exact h.bind h.newPlain fun _ => h.pure _
  case arrayConstructor =>
    split
    · split
      · exact h.newArray _
      · exact h.throwNamed _ _
    · exact h.newArray _
  case stringConstructor =>
    split
    · exact h.pure _
    · exact h.bind (h.toText hc _) fun _ => h.pure _
  case numberConstructor =>
    split
    · exact h.pure _
    · exact h.bind (h.toNumber hc _) fun _ => h.pure _
  case booleanConstructor | identity => exact h.pure _
  case errorConstructor =>
    split
    · exact h.newError _ _
    · exact h.bind (h.toText hc _) fun _ => h.newError _ _
  case arrayIsArray | objectToString | functionToString =>
    exact h.bind (h.reading (by simp)) fun _ => h.pure _
  case numberIsNaN | numberIsFinite | numberIsInteger => split <;> exact h.pure _
  case numberParseFloat | stringToUpperCase | stringToLowerCase | primitiveToString =>
    exact h.bind (h.toText hc _) fun _ => h.pure _
  case numberParseInt =>
    refine h.bind (h.toText hc _) fun text => ?_
    split
    · exact h.pure _
    · exact h.bind (h.toNumber hc _) fun _ => h.pure _
  case hasOwnProperty =>
    exact h.bind (h.toText hc _) fun _ => h.bind (h.reading (by simp)) fun _ => h.pure _
  case arrayPush =>
    refine h.bind (h.thisArray _ _) fun found => ?_
    split
    · exact h.throwNamed _ _
    · exact h.bind (h.append _ _) fun _ => h.pure _
  case arrayPop =>
    refine h.bind (h.thisArray _ _) fun found => h.bind (h.reading (by simp)) fun last => ?_
    exact h.bind (h.dropLast _) fun _ => h.pure _
  case arrayJoin =>
    refine h.bind (h.thisArray _ _) fun found => ?_
    split
    · exact h.bind (h.pure _) fun _ => h.bind (h.joinArray hc _ _) fun _ => h.pure _
    · exact h.bind (h.toText hc _) fun _ => h.bind (h.joinArray hc _ _) fun _ => h.pure _
  case arrayToString =>
    exact h.bind (h.thisArray _ _) fun _ => h.bind (h.joinArray hc _ _) fun _ => h.pure _
  case arrayIndexOf =>
    refine h.bind (h.thisArray _ _) fun found => ?_
    split <;> exact h.pure _
  case arrayIncludes => exact h.bind (h.thisArray _ _) fun _ => h.pure _
  case arraySlice =>
    exact h.bind (h.thisArray _ _) fun _ => h.bind (h.sliceBounds hc _ _) fun _ => h.newArray _
  case arrayMap =>
    exact h.bind (h.thisArray _ _) fun _ => h.bind (h.mapElements hc _ _ _ _) fun _ => h.newArray _
  case arrayForEach =>
    exact h.bind (h.thisArray _ _) fun _ => h.bind (h.mapElements hc _ _ _ _) fun _ => h.pure _
  case stringCharAt =>
    refine h.bind (h.toText hc _) fun s => ?_
    split
    · exact h.pure _
    · exact h.bind (h.toNumber hc _) fun _ => h.pure _
  case stringIndexOf =>
    refine h.bind (h.toText hc _) fun s => h.bind (h.toText hc _) fun needle => ?_
    split
    · refine h.bind (h.pure _) fun start => ?_
      split <;> exact h.pure _
    · refine h.bind (h.toNumber hc _) fun x => ?_
      split <;> refine h.bind (h.pure _) fun start => ?_ <;> split <;> exact h.pure _
  case stringSlice =>
    exact h.bind (h.toText hc _) fun _ => h.bind (h.sliceBounds hc _ _) fun _ => h.pure _
  case errorToString =>
    split
    · exact h.bind (h.errorPart hc _ _ _) fun _ => h.bind (h.errorPart hc _ _ _) fun _ => h.pure _
    · exact h.throwNamed _ _
  case host host => exact hhost host rfl

end Eval.NativeCongruence

def Place.Within (W : String → Prop) : Place → Prop
  | .binding name => W name
  | .property .. => True

namespace Eval.ExprCongruence

variable {P : Function → Prop} {W : String → Prop} {ρ : Relocation}
variable {R : ∀ {α : Type}, Eval α → Eval α → Prop} (h : ExprCongruence P W ρ R)
variable {f g : Invoke} (hc : SameCalls ρ R f g)

include h hc

theorem writePlace {place : Place} (hplace : place.Within W) (v : Value) :
    R (place.write f v) (place.write g v) := by
  cases place with
  | binding name => exact h.assign hplace v
  | property base key => exact h.setProperty hc base key v

theorem updateAt (op : UpdateOp) (side : Side) {place : Place} (hplace : place.Within W)
    (current : Value) :
    R (updateAt f op side place current) (updateAt g op side place current) := by
  refine h.bind (h.toNumber hc current) fun old => ?_
  refine h.bind (h.writePlace hc hplace _) fun _ => ?_
  cases side <;> exact h.pure _

end Eval.ExprCongruence

theorem Eval.BodyCongruence.declareVar {P : Function → Prop} {W V : String → Prop}
    {ρ : Relocation} {R : ∀ {α : Type}, Eval α → Eval α → Prop} (h : BodyCongruence P W V ρ R)
    {name : String} (hname : V name) : R (declareVar name) (declareVar name) := by
  refine h.bind (h.reading (by simp)) fun bound => ?_
  split
  · exact h.pure _
  · exact h.declare _ fun _ => hname

namespace Eval.Congruence

variable {P : Function → Prop} {ρ : Relocation} {R : ∀ {α : Type}, Eval α → Eval α → Prop}
variable (h : Congruence P ρ R)

include h

theorem addBlock (parent : ScopeId) : R (addBlock parent) (addBlock parent) :=
  h.addScope _

theorem inBlock {α : Type} {x y : Eval α} (hx : R x y) : R (inBlock x) (inBlock y) := by
  refine h.bind h.currentScope fun parent => ?_
  exact h.bind (h.addBlock parent) fun id => h.inScope id hx

theorem newFunction {f : Function} (hf : P f) (scope : ScopeId) :
    R (newFunction f scope) (newFunction (f.relocate ρ) scope) := by
  refine h.bind h.newPlain fun prototype => ?_
  exact h.bind (h.allocClosure rfl hf) fun _ => h.pure _

theorem functionValue {f : Function} (hf : P f) :
    R (functionValue f) (functionValue (f.relocate ρ)) := by
  obtain ⟨name, params, body⟩ := f
  cases name with
  | none => exact h.bind h.currentScope fun scope => h.newFunction hf scope
  | some name =>
    refine h.bind h.currentScope fun current => h.bind (h.addBlock current) fun scope => ?_
    exact h.bind (h.newFunction hf scope) fun v => h.bind (h.declareLocal _ _ _ _) fun _ => h.pure _

theorem handling (param : Option Ident) (v : Value) {body body' : Eval Completion}
    (hbody : R body body') :
    R (handling param body v) (handling (param.map ρ.ident) body' v) := by
  refine h.bind h.currentScope fun current => h.bind (h.addBlock current) fun scope => ?_
  cases param with
  | none => exact h.inScope scope (h.inBlock hbody)
  | some p => exact h.bind (h.declareLocal _ _ _ _) fun _ => h.inScope scope (h.inBlock hbody)

theorem stmt : StmtCongruence P (fun _ => True) (fun _ => True) ρ R where
  toBasicCongruence := h.toBasicCongruence
  define := h.define
  functionValue := h.functionValue
  assign _ := h.assign _
  newClosure hf := h.bind h.currentScope fun scope => h.newFunction hf scope
  declare v _ _ := h.bind (h.reading (by simp)) fun id => h.declareLocal id _ v _
  inBlock := h.inBlock
  handling := h.handling
  catching := h.catching
  finalizing := h.finalizing

theorem copyInto (source target : ScopeId) (names : List String) :
    R (copyInto source target names) (copyInto source target names) := by
  induction names with
  | nil => exact h.pure _
  | cons name names ih =>
    dsimp only [Eval.copyInto]
    refine h.bind (h.reading (by simp)) fun found => ?_
    cases found with
    | none => exact ih
    | some b => exact h.bind (h.declareLocal _ _ _ _) fun _ => ih

end Eval.Congruence

end ScriptEngine
