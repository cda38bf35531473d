import ScriptEngine.Proofs.Evaluation.Agreement
import ScriptEngine.Syntax.Loops
import ScriptEngine.Syntax.Parts
import ScriptEngine.Syntax.Writes

/-!
# Congruences over trees

The induction over expressions and statements: with related calls, a tree whose functions satisfy
`P`, that writes to names that satisfy `W` and declares to the scope of `var` bindings names that
satisfy `V`, and the relocated tree have related runs. Hoisting makes no calls, so only the trees
differ. Where there are no loops, the bounds on their rounds may differ. The first evaluator may
have ways of its own; that the evaluator itself is the one with its own ways is the first use of the
induction.
-/

-- In a mutual block the linter does not see what the other theorems use.
set_option linter.unusedSectionVars false

namespace ScriptEngine

open Eval

variable {P : Function → Prop} {W V : String → Prop} {ρ : Relocation}
variable {R : ∀ {α : Type}, Eval α → Eval α → Prop} {ways : Ways} {f g : Invoke}

namespace Eval.BasicCongruence

theorem checkBaseOf (h : BasicCongruence ρ R) (access : Access) (base : Value) (key : String)
    (object : Expr) :
    R (Eval.checkBase access base key object.text)
      (Eval.checkBase access base key (object.relocate ρ).text) := by
  rw [Expr.text_relocate]
  exact h.checkBase access base key object.text

end Eval.BasicCongruence

namespace Eval.SameCalls

theorem siteOf (hc : SameCalls ρ R f g) (o : Origin) (e : Expr) (callee receiver : Value)
    (args : List Value) :
    R (callAt f o e.text callee receiver args)
      (callAt g (ρ.origin o) (e.relocate ρ).text callee receiver args) := by
  rw [Expr.text_relocate]
  exact hc.site o e.text callee receiver args

theorem constructOf (hc : SameCalls ρ R f g) (o : Origin) (e : Expr) (callee : Value)
    (args : List Value) :
    R (constructAt f o e.text callee args)
      (constructAt g (ρ.origin o) (e.relocate ρ).text callee args) := by
  rw [Expr.text_relocate]
  exact hc.construct o e.text callee args

end Eval.SameCalls

section Expressions

variable (h : ExprCongruence P W ρ R) (hlook : ∀ name, R (ways.look name) (lookup name))
variable (hc : SameCalls ρ R f g)

include h hc

theorem Expr.callWith_congr (o : Origin) {callee : Expr}
    (hmember : ∀ o' object property, callee ≠ .member o' object property) {args : List Expr}
    (hcallee : R (callee.evalWith ways f) ((callee.relocate ρ).eval g))
    (hargs : R (Expr.evalListWith ways f args) (Expr.evalList g (Expr.relocateAll ρ args))) :
    R ((Expr.call o callee args).evalWith ways f)
      (((Expr.call o callee args).relocate ρ).eval g) := by
  have hrelocated : ∀ o' object property, callee.relocate ρ ≠ .member o' object property := by
    intro o' object property heq
    cases callee <;> first | exact hmember _ _ _ rfl | cases heq
  rw [Expr.relocate, Expr.evalWith, Expr.eval]
  · refine h.bind hcallee fun v => ?_
    exact h.bind hargs fun _ => hc.siteOf _ _ _ _ _
  · exact fun o' object property heq => hrelocated o' object property heq
  · exact fun o' object property heq => hmember o' object property heq

theorem Expr.unaryWith_congr (o : Origin) (op : UnaryOp) {operand : Expr}
    (hname : op = .typeOf → ∀ o' name, operand ≠ .identifier o' name)
    (hoperand : R (operand.evalWith ways f) ((operand.relocate ρ).eval g)) :
    R ((Expr.unary o op operand).evalWith ways f)
      (((Expr.unary o op operand).relocate ρ).eval g) := by
  have hrelocated : op = .typeOf → ∀ o' name, operand.relocate ρ ≠ .identifier o' name := by
    intro hop o' name heq
    cases operand <;> first | exact hname hop _ _ rfl | cases heq
  rw [Expr.relocate, Expr.evalWith, Expr.eval]
  · exact h.bind hoperand fun v => h.unary hc op v
  · exact fun o' name hop heq => hrelocated hop o' name heq
  · exact fun o' name hop heq => hname hop o' name heq

include hlook

mutual

theorem Expr.evalWith_congr (e : Expr) (hp : ∀ k ∈ e.functions, P k) (hw : ∀ x ∈ e.writes, W x) :
    R (e.evalWith ways f) ((e.relocate ρ).eval g) := by
  match e with
  | .number .. | .string .. | .bool .. | .null .. => exact h.pure _
  | .array _ items => exact h.bind (Expr.evalListWith_congr items hp hw) fun _ => h.newArray _
  | .object _ fields =>
    refine h.bind h.newPlain fun id => ?_
    exact h.bind (Field.evalIntoWith_congr id fields hp hw) fun _ => h.pure _
  | .function _ k => exact h.functionValue (hp k (by simp [Expr.functions]))
  | .identifier _ name => exact hlook name
  | .this _ => exact h.reading (by simp)
  | .binary _ op left right =>
    simp only [Expr.functions, Expr.writes, List.forall_mem_append] at hp hw
    refine h.bind (Expr.evalWith_congr left hp.1 hw.1) fun a => ?_
    exact h.bind (Expr.evalWith_congr right hp.2 hw.2) fun b => h.binary hc op a b
  | .logical _ op left right =>
    simp only [Expr.functions, Expr.writes, List.forall_mem_append] at hp hw
    refine h.bind (Expr.evalWith_congr left hp.1 hw.1) fun a => ?_
    have hright := Expr.evalWith_congr right hp.2 hw.2
    cases op <;> dsimp only <;> split
    · exact hright
    · exact h.pure _
    · exact h.pure _
    · exact hright
  | .coalesce _ left right =>
    simp only [Expr.functions, Expr.writes, List.forall_mem_append] at hp hw
    refine h.bind (Expr.evalWith_congr left hp.1 hw.1) fun a => ?_
    split
    · exact Expr.evalWith_congr right hp.2 hw.2
    · exact h.pure _
  | .unary _ op operand =>
    have hoperand := Expr.evalWith_congr operand hp hw
    cases op with
    | typeOf =>
      -- `typeof` of a name does not evaluate the name
      cases operand with
      | identifier => exact h.bind (h.reading (by simp)) fun v => h.unary hc _ v
      | _ => exact Expr.unaryWith_congr h hc _ _ (by nofun) hoperand
    | _ => exact Expr.unaryWith_congr h hc _ _ (by nofun) hoperand
  | .update _ op side target =>
    refine Target.resolveWith_congr target hp hw fun place hplace => ?_
    exact h.bind (h.readPlace hlook place) fun current => h.updateAt hc op side hplace current
  | .assign _ target value =>
    simp only [Expr.functions, Expr.writes, List.forall_mem_append] at hp hw
    have hvalue := Expr.evalWith_congr value hp.2 hw.2
    refine Target.resolveWith_congr target hp.1 hw.1 fun place hplace => ?_
    refine h.bind hvalue fun v => ?_
    exact h.bind (h.writePlace hc hplace v) fun _ => h.pure _
  | .compound _ op target value =>
    simp only [Expr.functions, Expr.writes, List.forall_mem_append] at hp hw
    have hvalue := Expr.evalWith_congr value hp.2 hw.2
    refine Target.resolveWith_congr target hp.1 hw.1 fun place hplace => ?_
    refine h.bind (h.readPlace hlook place) fun current => h.bind hvalue fun operand => ?_
    refine h.bind (h.binary hc op current operand) fun v => ?_
    exact h.bind (h.writePlace hc hplace v) fun _ => h.pure _
  | .conditional _ test yes no =>
    simp only [Expr.functions, Expr.writes, List.forall_mem_append] at hp hw
    refine h.bind (Expr.evalWith_congr test hp.1.1 hw.1.1) fun v => ?_
    split
    · exact Expr.evalWith_congr yes hp.1.2 hw.1.2
    · exact Expr.evalWith_congr no hp.2 hw.2
  | .member _ object property =>
    simp only [Expr.functions, Expr.writes, List.forall_mem_append] at hp hw
    refine h.bind (Expr.evalWith_congr object hp.1 hw.1) fun base => ?_
    refine h.bind (Property.keyWith_congr property hp.2 hw.2) fun key => ?_
    exact h.bind (h.checkBaseOf _ _ _ _) fun _ => h.reading (by simp)
  | .call o callee args =>
    simp only [Expr.functions, Expr.writes, List.forall_mem_append] at hp hw
    have hargs := Expr.evalListWith_congr args hp.2 hw.2
    have hcallee := Expr.evalWith_congr callee hp.1 hw.1
    cases callee with
    | member _ object property =>
      simp only [Expr.functions, Expr.writes, List.forall_mem_append] at hp hw
      refine h.bind (Expr.evalWith_congr object hp.1.1 hw.1.1) fun base => ?_
      refine h.bind (Property.keyWith_congr property hp.1.2 hw.1.2) fun key => ?_
      refine h.bind (h.checkBaseOf _ _ _ _) fun _ => h.bind (h.reading (by simp)) fun v => ?_
      refine h.bind hargs fun values => ?_
      rw [ρ.text_origin]
      exact hc.site _ _ _ _ _
    | _ => exact Expr.callWith_congr h hc o (by nofun) hcallee hargs
  | .construct o callee args =>
    simp only [Expr.functions, Expr.writes, List.forall_mem_append] at hp hw
    refine h.bind (Expr.evalWith_congr callee hp.1 hw.1) fun v => ?_
    exact h.bind (Expr.evalListWith_congr args hp.2 hw.2) fun _ => hc.constructOf _ _ _ _
termination_by structural e

theorem Expr.evalListWith_congr (es : List Expr) (hp : ∀ k ∈ Expr.functionsOf es, P k)
    (hw : ∀ x ∈ Expr.writesOf es, W x) :
    R (Expr.evalListWith ways f es) (Expr.evalList g (Expr.relocateAll ρ es)) := by
  match es with
  | [] => exact h.pure _
  | e :: es =>
    simp only [Expr.functionsOf, Expr.writesOf, List.forall_mem_append] at hp hw
    refine h.bind (Expr.evalWith_congr e hp.1 hw.1) fun v => ?_
    exact h.bind (Expr.evalListWith_congr es hp.2 hw.2) fun vs => h.pure _
termination_by structural es

theorem Field.evalIntoWith_congr (id : ObjectId) (fields : List Field)
    (hp : ∀ k ∈ Field.functionsOf fields, P k) (hw : ∀ x ∈ Field.writesOf fields, W x) :
    R (Field.evalIntoWith ways f id fields) (Field.evalInto g id (Field.relocateAll ρ fields)) := by
  match fields with
  | [] => exact h.pure _
  | .mk key value :: fields =>
    simp only [Field.functionsOf, Field.writesOf, List.forall_mem_append] at hp hw
    refine h.bind (Expr.evalWith_congr value hp.1 hw.1) fun v => ?_
    exact h.bind (h.define _ _ _) fun _ => Field.evalIntoWith_congr id fields hp.2 hw.2
termination_by structural fields

theorem Property.keyWith_congr (p : Property) (hp : ∀ k ∈ p.functions, P k)
    (hw : ∀ x ∈ p.writes, W x) : R (p.keyWith ways f) ((p.relocate ρ).key g) := by
  match p with
  | .named _ => exact h.pure _
  | .computed e => exact h.bind (Expr.evalWith_congr e hp hw) fun v => h.toKey hc v
termination_by structural p

theorem Target.resolveWith_congr (t : Target) (hp : ∀ k ∈ t.functions, P k)
    (hw : ∀ x ∈ t.writes, W x) {α : Type} {k k' : Place → Eval α}
    (hk : ∀ place : Place, place.Within W → R (k place) (k' place)) :
    R (t.resolveWith ways f >>= k) ((t.relocate ρ).resolve g >>= k') := by
  match t with
  | .name name =>
    simp only [Target.relocate, Target.resolveWith, Target.resolve, pure_bind]
    exact hk _ (hw name.name (by simp [Target.writes]))
  | .member object property =>
    simp only [Target.functions, Target.writes, List.forall_mem_append] at hp hw
    simp only [Target.relocate, Target.resolveWith, Target.resolve, bind_assoc, pure_bind]
    refine h.bind (Expr.evalWith_congr object hp.1 hw.1) fun base => ?_
    refine h.bind (Property.keyWith_congr property hp.2 hw.2) fun key => ?_
    exact h.bind (h.checkBaseOf _ _ _ _) fun _ => hk _ trivial
termination_by structural t

end

theorem Expr.evalIfAnyWith_congr (o : Option Expr) (hp : ∀ k ∈ Expr.functionsIfAny o, P k)
    (hw : ∀ x ∈ Expr.writesIfAny o, W x) :
    IfAny R (Expr.evalIfAnyWith ways f o) (Expr.evalIfAny g (Expr.relocateIfAny ρ o)) := by
  cases o with
  | none => exact .none
  | some e => exact .some (Expr.evalWith_congr h hlook hc e hp hw)

theorem SwitchCase.reachedWith_congr (v : Value) (matched : Bool) (test : Option Expr)
    (hp : ∀ k ∈ Expr.functionsIfAny test, P k) (hw : ∀ x ∈ Expr.writesIfAny test, W x) :
    R (SwitchCase.reachedWith ways f v matched test)
      (SwitchCase.reached g v matched (Expr.relocateIfAny ρ test)) := by
  cases matched with
  | true => exact h.pure _
  | false =>
    cases test with
    | none => exact h.pure _
    | some test => exact h.bind (Expr.evalWith_congr h hlook hc test hp hw) fun _ => h.pure _

end Expressions

section Hoisting

variable (h : BodyCongruence P W V ρ R)

include h

theorem Declarator.hoistAll_congr (ds : List Declarator) (hv : ∀ x ∈ ds.map Declarator.name, V x) :
    R (Declarator.hoistAll ds) (Declarator.hoistAll (Declarator.relocateAll ρ ds)) := by
  induction ds with
  | nil => exact h.pure _
  | cons d ds ih =>
    obtain ⟨name, _⟩ := d
    simp only [List.map_cons, List.forall_mem_cons] at hv
    exact h.bind (h.declareVar hv.1) fun _ => ih hv.2

mutual

theorem Stmt.hoist_congr (s : Stmt) (hp : ∀ k ∈ s.functions, P k)
    (hv : ∀ t ∈ s :: s.inner, ∀ x ∈ t.hoistedNames, V x) : R s.hoist (s.relocate ρ).hoist := by
  obtain ⟨hhere, hv⟩ := List.forall_mem_cons.mp hv
  match s with
  | .function _ name k =>
    have hclosure := h.newClosure (hp k (by simp [Stmt.functions]))
    have hname := hhere name.name (List.mem_singleton_self _)
    have hhoist := h.bind hclosure fun v => h.declare v fun (_ : BindingKind.var = .var) => hname
    simp only [bind_assoc] at hhoist
    exact hhoist
  | .declaration _ kind ds =>
    cases kind with
    | var => exact Declarator.hoistAll_congr h ds hhere
    | let_ | const => exact h.pure _
  | .block _ (.mk _ statements) => exact Stmt.hoistAll_congr statements hp hv
  | .branch _ _ yes no =>
    simp only [Stmt.functions, Stmt.inner, List.forall_mem_append] at hp hv
    refine h.bind (Stmt.hoist_congr yes hp.1.2 hv.1) fun _ => ?_
    exact Stmt.hoistIfAny_congr no hp.2 hv.2
  | .whileLoop _ _ body =>
    simp only [Stmt.functions, List.forall_mem_append] at hp
    exact Stmt.hoist_congr body hp.2 hv
  | .forLoop _ init _ _ body =>
    simp only [Stmt.functions, Stmt.inner, List.forall_mem_append] at hp hv
    refine h.bind (Stmt.hoistIfAny_congr init hp.1.1.1 hv.1) fun _ => ?_
    exact Stmt.hoist_congr body hp.2 hv.2
  | .switch _ _ cases =>
    simp only [Stmt.functions, List.forall_mem_append] at hp
    exact SwitchCase.hoistAll_congr cases hp.2 hv
  | .attempt _ (.mk _ statements) handler finalizer =>
    simp only [Stmt.functions, Block.functions, Stmt.inner, Block.parts,
      List.forall_mem_append] at hp hv
    refine h.bind (Stmt.hoistAll_congr statements hp.1.1 hv.1.1) fun _ => ?_
    refine h.bind (Handler.hoistIfAny_congr handler hp.1.2 hv.1.2) fun _ => ?_
    exact Block.hoistIfAny_congr finalizer hp.2 hv.2
  | .expression .. | .breakLoop _ | .continueLoop _ | .raise .. | .giveBack .. | .empty _ =>
    exact h.pure _
termination_by structural s

theorem Stmt.hoistAll_congr (ss : List Stmt) (hp : ∀ k ∈ Stmt.functionsOf ss, P k)
    (hv : ∀ t ∈ Stmt.partsOf ss, ∀ x ∈ t.hoistedNames, V x) :
    R (Stmt.hoistAll ss) (Stmt.hoistAll (Stmt.relocateAll ρ ss)) := by
  match ss with
  | [] => exact h.pure _
  | s :: ss =>
    simp only [Stmt.functionsOf, Stmt.partsOf, List.forall_mem_append] at hp hv
    exact h.bind (Stmt.hoist_congr s hp.1 hv.1) fun _ => Stmt.hoistAll_congr ss hp.2 hv.2
termination_by structural ss

theorem Stmt.hoistIfAny_congr (s : Option Stmt) (hp : ∀ k ∈ Stmt.functionsIfAny s, P k)
    (hv : ∀ t ∈ Stmt.partsIfAny s, ∀ x ∈ t.hoistedNames, V x) :
    R (Stmt.hoistIfAny s) (Stmt.hoistIfAny (Stmt.relocateIfAny ρ s)) := by
  match s with
  | none => exact h.pure _
  | some s => exact Stmt.hoist_congr s hp hv
termination_by structural s

theorem SwitchCase.hoistAll_congr (cases : List SwitchCase)
    (hp : ∀ k ∈ SwitchCase.functionsOf cases, P k)
    (hv : ∀ t ∈ SwitchCase.partsOf cases, ∀ x ∈ t.hoistedNames, V x) :
    R (SwitchCase.hoistAll cases) (SwitchCase.hoistAll (SwitchCase.relocateAll ρ cases)) := by
  match cases with
  | [] => exact h.pure _
  | .mk _ body :: cases =>
    simp only [SwitchCase.functionsOf, SwitchCase.partsOf, List.forall_mem_append] at hp hv
    refine h.bind (Stmt.hoistAll_congr body hp.1.2 hv.1) fun _ => ?_
    exact SwitchCase.hoistAll_congr cases hp.2 hv.2
termination_by structural cases

theorem Handler.hoistIfAny_congr (handler : Option Handler)
    (hp : ∀ k ∈ Handler.functionsIfAny handler, P k)
    (hv : ∀ t ∈ Handler.partsIfAny handler, ∀ x ∈ t.hoistedNames, V x) :
    R (Handler.hoistIfAny handler) (Handler.hoistIfAny (Handler.relocateIfAny ρ handler)) := by
  match handler with
  | none => exact h.pure _
  | some (.mk _ (.mk _ statements)) => exact Stmt.hoistAll_congr statements hp hv
termination_by structural handler

theorem Block.hoistIfAny_congr (b : Option Block) (hp : ∀ k ∈ Block.functionsIfAny b, P k)
    (hv : ∀ t ∈ Block.partsIfAny b, ∀ x ∈ t.hoistedNames, V x) :
    R (Block.hoistIfAny b) (Block.hoistIfAny (Block.relocateIfAny ρ b)) := by
  match b with
  | none => exact h.pure _
  | some (.mk _ statements) => exact Stmt.hoistAll_congr statements hp hv
termination_by structural b

end

end Hoisting

section Declarators

variable (h : BodyCongruence P W V ρ R) (hlook : ∀ name, R (ways.look name) (lookup name))
variable (hc : SameCalls ρ R f g)

include h hlook hc

theorem Declarator.runWith_congr (kind : BindingKind) (name : Ident) (init : Option Expr)
    (hp : ∀ k ∈ Expr.functionsIfAny init, P k) (hname : kind = .var → W name.name ∧ V name.name)
    (hw : ∀ x ∈ Expr.writesIfAny init, W x) :
    R ((Declarator.mk name init).runWith ways f kind)
      (((Declarator.mk name init).relocate ρ).run g kind) := by
  cases init with
  | none =>
    cases kind with
    | var => exact h.declareVar (hname rfl).2
    | let_ => exact h.declare _ nofun
    | const => exact h.throwNamed _ _
  | some e =>
    have he := Expr.evalWith_congr h.toExprCongruence hlook hc e hp hw
    cases kind with
    | var => exact h.bind he fun _ => h.assign (hname rfl).1 _
    | let_ | const => exact h.bind he fun _ => h.declare _ nofun

theorem Declarator.runAllWith_congr (kind : BindingKind) (ds : List Declarator)
    (hp : ∀ k ∈ Declarator.functionsOf ds, P k) (hw : ∀ x ∈ Declarator.writesOf kind ds, W x)
    (hv : kind = .var → ∀ x ∈ ds.map Declarator.name, V x) :
    R (Declarator.runAllWith ways f kind ds)
      (Declarator.runAll g kind (Declarator.relocateAll ρ ds)) := by
  induction ds with
  | nil => exact h.pure _
  | cons d ds ih =>
    obtain ⟨name, init⟩ := d
    simp only [Declarator.functionsOf, Declarator.writesOf, List.map_cons, List.forall_mem_append,
      List.forall_mem_cons] at hp hw hv
    have hd := Declarator.runWith_congr h hlook hc kind name init hp.1 ?_ hw.1.2
    · exact h.bind hd fun _ => ih hp.2 hw.2 fun hkind => (hv hkind).2
    · rintro rfl
      exact ⟨hw.1.1 _ (by simp), (hv rfl).1⟩

end Declarators

theorem Eval.catching_none (x : Eval Completion) : catching x none = x := by
  funext m
  simp only [catching, bind, EStateM.bind, outcome]
  cases x m <;> rfl

theorem Stmt.roundNames_declaration (o : Origin) (kind : BindingKind) (ds : List Declarator) :
    Stmt.roundNames (some (.declaration o kind ds)) =
      if kind = .var then [] else ds.map Declarator.name := rfl

theorem Declarator.map_name_relocateAll (ds : List Declarator) :
    (Declarator.relocateAll ρ ds).map Declarator.name = ds.map Declarator.name := by
  induction ds with
  | nil => rfl
  | cons d ds ih =>
    obtain ⟨name, init⟩ := d
    exact congrArg (name.name :: ·) ih

theorem Stmt.roundNames_relocate (init : Option Stmt) :
    Stmt.roundNames (Stmt.relocateIfAny ρ init) = Stmt.roundNames init := by
  cases init with
  | none => rfl
  | some s =>
    cases s with
    | declaration o kind ds =>
      rw [Stmt.relocateIfAny, Stmt.relocate, Stmt.roundNames_declaration,
        Stmt.roundNames_declaration, Declarator.map_name_relocateAll]
    | _ => rfl

theorem Stmt.roundNames_cases (init : Option Stmt) :
    Stmt.roundNames init = [] ∨ ∃ o kind ds, init = some (.declaration o kind ds) ∧ kind ≠ .var ∧
      Stmt.roundNames init = ds.map Declarator.name := by
  cases init with
  | none => exact .inl rfl
  | some s =>
    cases s with
    | declaration o kind ds =>
      cases kind with
      | var => exact .inl rfl
      | let_ | const => exact .inr ⟨o, _, ds, rfl, nofun, rfl⟩
    | _ => exact .inl rfl

theorem Declarator.mem_functionsOf {ds : List Declarator} {name : Ident} {init : Option Expr}
    {k : Function} (hd : Declarator.mk name init ∈ ds) (hk : k ∈ Expr.functionsIfAny init) :
    k ∈ Declarator.functionsOf ds := by
  induction ds with
  | nil => cases hd
  | cons d ds ih =>
    obtain ⟨_, _⟩ := d
    rw [Declarator.functionsOf, List.mem_append]
    rcases List.mem_cons.mp hd with hhead | htail
    · cases hhead
      exact .inl hk
    · exact .inr (ih htail)

theorem Declarator.mem_writesOf {kind : BindingKind} {ds : List Declarator} {name : Ident}
    {init : Option Expr} {x : String} (hd : Declarator.mk name init ∈ ds)
    (hx : x ∈ Expr.writesIfAny init) : x ∈ Declarator.writesOf kind ds := by
  induction ds with
  | nil => cases hd
  | cons d ds ih =>
    obtain ⟨_, _⟩ := d
    rw [Declarator.writesOf, List.mem_append, List.mem_append]
    rcases List.mem_cons.mp hd with hhead | htail
    · cases hhead
      exact .inl (.inr hx)
    · exact .inr (ih htail)

/-- What statements ask for, loops apart, if the first evaluator has ways of its own. -/
structure Eval.WaysCongruence (ways : Ways) (f g : Invoke) (n n' : Nat) (P : Function → Prop)
    (W V : String → Prop) (ρ : Relocation) (R : ∀ {α : Type}, Eval α → Eval α → Prop) : Prop
    extends BodyCongruence P W V ρ R where
  look (name : String) : R (ways.look name) (lookup name)
  finishing {x y : Eval Completion} (hx : R x y) (b : Block)
    (hlast : R (Eval.inBlock (b.runBodyWith ways f n))
    (Eval.inBlock ((b.relocate ρ).runBody g n'))) :
    R (ways.finish x (Eval.inBlock (b.runBodyWith ways f n))
      (Eval.inBlock (b.runBody (invoke n) n)))
      (finalizing y (some (Eval.inBlock ((b.relocate ρ).runBody g n'))))

section Statements

variable {n n' : Nat} (h : WaysCongruence ways f g n n' P W V ρ R) (hc : SameCalls ρ R f g)

include h hc

mutual

theorem Stmt.runWith_congr (s : Stmt) (hp : ∀ k ∈ s.functions, P k) (hw : ∀ x ∈ s.writes, W x)
    (hv : ∀ t ∈ s :: s.inner, ∀ x ∈ t.hoistedNames, V x)
    (hl : ∀ l ∈ s.loops, n = n' ∧ Looping ρ R) :
    R (s.runWith ways f n) ((s.relocate ρ).run g n') := by
  have heval := Expr.evalWith_congr h.toExprCongruence h.look hc
  have hevalIfAny := Expr.evalIfAnyWith_congr h.toExprCongruence h.look hc
  obtain ⟨hhere, hv⟩ := List.forall_mem_cons.mp hv
  match s with
  | .expression _ e => exact h.bind (heval e hp hw) fun _ => h.pure _
  | .declaration _ kind ds =>
    have hds := Declarator.runAllWith_congr h.toBodyCongruence h.look hc kind ds hp hw ?_
    · exact h.bind hds fun _ => h.pure _
    · rintro rfl
      exact hhere
  | .function _ name k =>
    have hclosure := h.newClosure (hp k (by simp [Stmt.functions]))
    have hname := hhere name.name (List.mem_singleton_self _)
    have hdeclare := h.bind hclosure fun v =>
      h.bind (h.declare v fun (_ : BindingKind.var = .var) => hname) fun _ =>
        h.pure Completion.undefined
    simp only [bind_assoc] at hdeclare
    exact hdeclare
  | .block _ body => exact h.inBlock (Block.runBodyWith_congr body hp hw hv hl)
  | .branch _ condition yes no =>
    simp only [Stmt.functions, Stmt.writes, Stmt.inner, Stmt.loops,
      List.forall_mem_append] at hp hw hv hl
    refine h.bind (heval condition hp.1.1 hw.1.1) fun v => ?_
    split
    · exact Stmt.runWith_congr yes hp.1.2 hw.1.2 hv.1 hl.1
    · exact Stmt.runIfAnyWith_congr no hp.2 hw.2 hv.2 hl.2
  | .whileLoop _ condition body =>
    simp only [Stmt.functions, Stmt.writes, Stmt.loops, List.forall_mem_append,
      List.forall_mem_cons] at hp hw hl
    have hbody := Stmt.runWith_congr body hp.2 hw.2 hv hl.2
    obtain ⟨rfl, hloops⟩ := hl.1
    exact hloops.whileLoop (heval condition hp.1 hw.1) hbody n
  | .forLoop _ init condition update body =>
    simp only [Stmt.functions, Stmt.writes, Stmt.inner, List.forall_mem_append] at hp hw hv
    simp only [Stmt.loops, List.forall_mem_append, List.forall_mem_cons] at hl
    have hinit := Stmt.runIfAnyWith_congr init hp.1.1.1 hw.1.1.1 hv.1 hl.2.1
    have hcondition := hevalIfAny condition hp.1.1.2 hw.1.1.2
    have hupdate := hevalIfAny update hp.1.2 hw.1.2
    have hbody := Stmt.runWith_congr body hp.2 hw.2 hv.2 hl.2.2
    obtain ⟨rfl, hloops⟩ := hl.1
    simp only [Stmt.relocate, Stmt.runWith, Stmt.run, Stmt.roundNames_relocate]
    rcases Stmt.roundNames_cases init with hnames | ⟨o, kind, ds, rfl, hkind, hnames⟩
    · rw [hnames]
      exact h.inBlock (h.bind hinit fun _ => hloops.forLoop hcondition hupdate hbody n)
    · simp only [hnames, Stmt.relocateIfAny, Stmt.relocate, Stmt.runIfAnyWith, Stmt.runWith,
        Stmt.runIfAny, Stmt.run, bind_assoc, pure_bind]
      refine hloops.rounds hkind (fun d hd => ?_) hcondition hupdate hbody n
      obtain ⟨name, init⟩ := d
      exact Declarator.runWith_congr h.toBodyCongruence h.look hc kind name init
        (fun k hk => hp.1.1.1 k (Declarator.mem_functionsOf hd hk)) (fun hvar => absurd hvar hkind)
        fun x hx => hw.1.1.1 x (Declarator.mem_writesOf hd hx)
  | .switch _ discriminant cases =>
    simp only [Stmt.functions, Stmt.writes, List.forall_mem_append] at hp hw
    refine h.bind (heval discriminant hp.1 hw.1) fun v => ?_
    exact h.inBlock (SwitchCase.runArmsWith_congr v false cases hp.2 hw.2 hv hl)
  | .breakLoop _ | .continueLoop _ | .empty _ => exact h.pure _
  | .raise _ e => exact h.bind (heval e hp hw) fun v => h.throwValue v
  | .attempt _ body handler finalizer =>
    simp only [Stmt.functions, Stmt.writes, Stmt.inner, Stmt.loops,
      List.forall_mem_append] at hp hw hv hl
    have hbody := h.inBlock (Block.runBodyWith_congr body hp.1.1 hw.1.1 hv.1.1 hl.1.1)
    have hcaught := Handler.runIfAnyWith_congr handler hp.1.2 hw.1.2 hv.1.2 hl.1.2 hbody
    exact Block.finishWith_congr finalizer hp.2 hw.2 hv.2 hl.2 hcaught
  | .giveBack _ none => exact h.pure _
  | .giveBack _ (some e) => exact h.bind (heval e hp hw) fun _ => h.pure _
termination_by structural s

theorem Stmt.runIfAnyWith_congr (s : Option Stmt) (hp : ∀ k ∈ Stmt.functionsIfAny s, P k)
    (hw : ∀ x ∈ Stmt.writesIfAny s, W x)
    (hv : ∀ t ∈ Stmt.partsIfAny s, ∀ x ∈ t.hoistedNames, V x)
    (hl : ∀ l ∈ Stmt.loopsIfAny s, n = n' ∧ Looping ρ R) :
    R (Stmt.runIfAnyWith ways f n s) (Stmt.runIfAny g n' (Stmt.relocateIfAny ρ s)) := by
  match s with
  | none => exact h.pure _
  | some s => exact Stmt.runWith_congr s hp hw hv hl
termination_by structural s

theorem Stmt.runAllWith_congr (last : Option Value) (ss : List Stmt)
    (hp : ∀ k ∈ Stmt.functionsOf ss, P k) (hw : ∀ x ∈ Stmt.writesOf ss, W x)
    (hv : ∀ t ∈ Stmt.partsOf ss, ∀ x ∈ t.hoistedNames, V x)
    (hl : ∀ l ∈ Stmt.loopsOf ss, n = n' ∧ Looping ρ R) :
    R (Stmt.runAllWith ways f n last ss) (Stmt.runAll g n' last (Stmt.relocateAll ρ ss)) := by
  match ss with
  | [] => exact h.pure _
  | s :: ss =>
    simp only [Stmt.functionsOf, Stmt.writesOf, Stmt.partsOf, Stmt.loopsOf,
      List.forall_mem_append] at hp hw hv hl
    refine h.bind (Stmt.runWith_congr s hp.1 hw.1 hv.1 hl.1) fun c => ?_
    match c with
    | .normal (some v) => exact Stmt.runAllWith_congr (some v) ss hp.2 hw.2 hv.2 hl.2
    | .normal none => exact Stmt.runAllWith_congr last ss hp.2 hw.2 hv.2 hl.2
    | .leave | .skip | .giveBack _ => exact h.pure _
termination_by structural ss

theorem Block.runBodyWith_congr (b : Block) (hp : ∀ k ∈ b.functions, P k)
    (hw : ∀ x ∈ b.writes, W x) (hv : ∀ t ∈ b.parts, ∀ x ∈ t.hoistedNames, V x)
    (hl : ∀ l ∈ b.loops, n = n' ∧ Looping ρ R) :
    R (b.runBodyWith ways f n) ((b.relocate ρ).runBody g n') := by
  match b with
  | .mk _ statements => exact Stmt.runAllWith_congr none statements hp hw hv hl
termination_by structural b

theorem Block.finishWith_congr (b : Option Block) (hp : ∀ k ∈ Block.functionsIfAny b, P k)
    (hw : ∀ x ∈ Block.writesIfAny b, W x)
    (hv : ∀ t ∈ Block.partsIfAny b, ∀ x ∈ t.hoistedNames, V x)
    (hl : ∀ l ∈ Block.loopsIfAny b, n = n' ∧ Looping ρ R) {x y : Eval Completion} (hx : R x y) :
    R (Block.finishWith ways f n x b)
      (finalizing y (Block.runIfAny g n' (Block.relocateIfAny ρ b))) := by
  match b with
  | none => exact hx
  | some b => exact h.finishing hx b (h.inBlock (Block.runBodyWith_congr b hp hw hv hl))
termination_by structural b

theorem Handler.runIfAnyWith_congr (handler : Option Handler)
    (hp : ∀ k ∈ Handler.functionsIfAny handler, P k) (hw : ∀ x ∈ Handler.writesIfAny handler, W x)
    (hv : ∀ t ∈ Handler.partsIfAny handler, ∀ x ∈ t.hoistedNames, V x)
    (hl : ∀ l ∈ Handler.loopsIfAny handler, n = n' ∧ Looping ρ R)
    {x y : Eval Completion} (hx : R x y) :
    R (catching x (Handler.runIfAnyWith ways f n handler))
      (catching y (Handler.runIfAny g n' (Handler.relocateIfAny ρ handler))) := by
  match handler with
  | none =>
    rw [Handler.relocateIfAny, Handler.runIfAnyWith, Handler.runIfAny, catching_none, catching_none]
    exact hx
  | some (.mk param body) =>
    exact h.catching hx fun v => h.handling param v (Block.runBodyWith_congr body hp hw hv hl)
termination_by structural handler

theorem SwitchCase.runArmsWith_congr (v : Value) (matched : Bool) (cases : List SwitchCase)
    (hp : ∀ k ∈ SwitchCase.functionsOf cases, P k) (hw : ∀ x ∈ SwitchCase.writesOf cases, W x)
    (hv : ∀ t ∈ SwitchCase.partsOf cases, ∀ x ∈ t.hoistedNames, V x)
    (hl : ∀ l ∈ SwitchCase.loopsOf cases, n = n' ∧ Looping ρ R) :
    R (SwitchCase.runArmsWith ways f n v matched cases)
      (SwitchCase.runArms g n' v matched (SwitchCase.relocateAll ρ cases)) := by
  match cases with
  | [] => exact h.pure _
  | .mk test body :: cases =>
    simp only [SwitchCase.functionsOf, SwitchCase.writesOf, SwitchCase.partsOf, SwitchCase.loopsOf,
      List.forall_mem_append] at hp hw hv hl
    have hreached := SwitchCase.reachedWith_congr h.toExprCongruence h.look hc v matched test
      hp.1.1 hw.1.1
    refine h.bind hreached fun matched => ?_
    have hrest := SwitchCase.runArmsWith_congr v matched cases hp.2 hw.2 hv.2 hl.2
    split
    · refine h.bind (Stmt.runAllWith_congr none body hp.1.2 hw.1.2 hv.1 hl.1) fun c => ?_
      cases c with
      | normal => exact hrest
      | leave | skip | giveBack => exact h.pure _
    · exact hrest
termination_by structural cases

end

theorem Eval.runBodyWith_congr (ss : List Stmt) (hp : ∀ k ∈ Stmt.functionsOf ss, P k)
    (hw : ∀ x ∈ Stmt.writesOf ss, W x) (hv : ∀ t ∈ Stmt.partsOf ss, ∀ x ∈ t.hoistedNames, V x)
    (hl : ∀ l ∈ Stmt.loopsOf ss, n = n' ∧ Looping ρ R) :
    R (runBodyWith ways f n ss) (runBody g n' (Stmt.relocateAll ρ ss)) :=
  h.bind (Stmt.hoistAll_congr h.toBodyCongruence ss hp hv) fun _ =>
    Stmt.runAllWith_congr h hc none ss hp hw hv hl

end Statements

section Own

variable {n n' : Nat}

theorem Eval.StmtCongruence.own (h : StmtCongruence P W V ρ R) :
    WaysCongruence .own f g n n' P W V ρ R where
  toBodyCongruence := h.toBodyCongruence
  look := h.lookup
  finishing hx _ hlast := h.finalizing hx hlast

theorem Eval.own_same :
    WaysCongruence .own f g n n' (fun _ => True) (fun _ => True) (fun _ => True) .stay
      (AgreeUnless fun _ _ => False) where
  toBodyCongruence := AgreeUnless.body nofun
  look _ := .refl _
  finishing hx _ hlast := by
    rw [hx.eq, hlast.eq]
    exact .refl _

theorem Expr.evalWith_own (e : Expr) : e.evalWith .own f = e.eval f := by
  have hsame : AgreeUnless (fun _ _ => False) (e.evalWith .own f) ((e.relocate .stay).eval f) :=
    Expr.evalWith_congr (AgreeUnless.body nofun).toExprCongruence (fun _ => .refl _)
      (AgreeUnless.sameCalls_refl f) e (fun _ _ => trivial) fun _ _ => trivial
  rw [Expr.relocate_stay] at hsame
  exact hsame.eq

theorem Stmt.runWith_own (s : Stmt) : s.runWith .own f n = s.run f n := by
  have hsame : AgreeUnless (fun _ _ => False) (s.runWith .own f n) ((s.relocate .stay).run f n) :=
    Stmt.runWith_congr own_same (AgreeUnless.sameCalls_refl f) s (fun _ _ => trivial)
      (fun _ _ => trivial) (fun _ _ _ _ => trivial) fun _ _ => ⟨rfl, AgreeUnless.looping⟩
  rw [Stmt.relocate_stay] at hsame
  exact hsame.eq

theorem Stmt.runAllWith_own (last : Option Value) (ss : List Stmt) :
    Stmt.runAllWith .own f n last ss = Stmt.runAll f n last ss := by
  have hsame : AgreeUnless (fun _ _ => False) (Stmt.runAllWith .own f n last ss)
      (Stmt.runAll f n last (Stmt.relocateAll .stay ss)) :=
    Stmt.runAllWith_congr own_same (AgreeUnless.sameCalls_refl f) last ss (fun _ _ => trivial)
      (fun _ _ => trivial) (fun _ _ _ _ => trivial) fun _ _ => ⟨rfl, AgreeUnless.looping⟩
  rw [Stmt.relocateAll_stay] at hsame
  exact hsame.eq

theorem SwitchCase.runArmsWith_own (v : Value) (matched : Bool) (cases : List SwitchCase) :
    SwitchCase.runArmsWith .own f n v matched cases = SwitchCase.runArms f n v matched cases := by
  have hsame : AgreeUnless (fun _ _ => False) (SwitchCase.runArmsWith .own f n v matched cases)
      (SwitchCase.runArms f n v matched (SwitchCase.relocateAll .stay cases)) :=
    SwitchCase.runArmsWith_congr own_same (AgreeUnless.sameCalls_refl f) v matched cases
      (fun _ _ => trivial) (fun _ _ => trivial) (fun _ _ _ _ => trivial)
      fun _ _ => ⟨rfl, AgreeUnless.looping⟩
  rw [SwitchCase.relocateAll_stay] at hsame
  exact hsame.eq

end Own

section Expressions

variable (h : ExprCongruence P W ρ R) (hc : SameCalls ρ R f g)

include h hc

theorem Expr.eval_congr (e : Expr) (hp : ∀ k ∈ e.functions, P k) (hw : ∀ x ∈ e.writes, W x) :
    R (e.eval f) ((e.relocate ρ).eval g) := by
  rw [← Expr.evalWith_own]
  exact Expr.evalWith_congr h h.lookup hc e hp hw

theorem Expr.evalIfAny_congr (o : Option Expr) (hp : ∀ k ∈ Expr.functionsIfAny o, P k)
    (hw : ∀ x ∈ Expr.writesIfAny o, W x) :
    IfAny R (Expr.evalIfAny f o) (Expr.evalIfAny g (Expr.relocateIfAny ρ o)) := by
  cases o with
  | none => exact .none
  | some e => exact .some (Expr.eval_congr h hc e hp hw)

end Expressions

section Statements

variable {n n' : Nat} (h : StmtCongruence P W V ρ R) (hc : SameCalls ρ R f g)

include h hc

theorem Stmt.run_congr (s : Stmt) (hp : ∀ k ∈ s.functions, P k) (hw : ∀ x ∈ s.writes, W x)
    (hv : ∀ t ∈ s :: s.inner, ∀ x ∈ t.hoistedNames, V x)
    (hl : ∀ l ∈ s.loops, n = n' ∧ Looping ρ R) : R (s.run f n) ((s.relocate ρ).run g n') := by
  rw [← Stmt.runWith_own (f := f) (n := n) s]
  exact Stmt.runWith_congr h.own hc s hp hw hv hl

theorem Stmt.runIfAny_congr (s : Option Stmt) (hp : ∀ k ∈ Stmt.functionsIfAny s, P k)
    (hw : ∀ x ∈ Stmt.writesIfAny s, W x)
    (hv : ∀ t ∈ Stmt.partsIfAny s, ∀ x ∈ t.hoistedNames, V x)
    (hl : ∀ l ∈ Stmt.loopsIfAny s, n = n' ∧ Looping ρ R) :
    R (Stmt.runIfAny f n s) (Stmt.runIfAny g n' (Stmt.relocateIfAny ρ s)) := by
  cases s with
  | none => exact h.pure _
  | some s => exact Stmt.run_congr h hc s hp hw hv hl

theorem Stmt.runAll_congr (last : Option Value) (ss : List Stmt)
    (hp : ∀ k ∈ Stmt.functionsOf ss, P k) (hw : ∀ x ∈ Stmt.writesOf ss, W x)
    (hv : ∀ t ∈ Stmt.partsOf ss, ∀ x ∈ t.hoistedNames, V x)
    (hl : ∀ l ∈ Stmt.loopsOf ss, n = n' ∧ Looping ρ R) :
    R (Stmt.runAll f n last ss) (Stmt.runAll g n' last (Stmt.relocateAll ρ ss)) := by
  rw [← Stmt.runAllWith_own (f := f) (n := n) last ss]
  exact Stmt.runAllWith_congr h.own hc last ss hp hw hv hl

theorem Block.runBody_congr (b : Block) (hp : ∀ k ∈ b.functions, P k) (hw : ∀ x ∈ b.writes, W x)
    (hv : ∀ t ∈ b.parts, ∀ x ∈ t.hoistedNames, V x) (hl : ∀ l ∈ b.loops, n = n' ∧ Looping ρ R) :
    R (b.runBody f n) ((b.relocate ρ).runBody g n') := by
  obtain ⟨_, statements⟩ := b
  exact Stmt.runAll_congr h hc none statements hp hw hv hl

theorem SwitchCase.runArms_congr (v : Value) (matched : Bool) (cases : List SwitchCase)
    (hp : ∀ k ∈ SwitchCase.functionsOf cases, P k) (hw : ∀ x ∈ SwitchCase.writesOf cases, W x)
    (hv : ∀ t ∈ SwitchCase.partsOf cases, ∀ x ∈ t.hoistedNames, V x)
    (hl : ∀ l ∈ SwitchCase.loopsOf cases, n = n' ∧ Looping ρ R) :
    R (SwitchCase.runArms f n v matched cases)
      (SwitchCase.runArms g n' v matched (SwitchCase.relocateAll ρ cases)) := by
  rw [← SwitchCase.runArmsWith_own (f := f) (n := n) v matched cases]
  exact SwitchCase.runArmsWith_congr h.own hc v matched cases hp hw hv hl

theorem Eval.runBody_congr (ss : List Stmt) (hp : ∀ k ∈ Stmt.functionsOf ss, P k)
    (hw : ∀ x ∈ Stmt.writesOf ss, W x) (hv : ∀ t ∈ Stmt.partsOf ss, ∀ x ∈ t.hoistedNames, V x)
    (hl : ∀ l ∈ Stmt.loopsOf ss, n = n' ∧ Looping ρ R) :
    R (runBody f n ss) (runBody g n' (Stmt.relocateAll ρ ss)) :=
  h.bind (Stmt.hoistAll_congr h.toBodyCongruence ss hp hv) fun _ =>
    Stmt.runAll_congr h hc none ss hp hw hv hl

end Statements

variable {n n' : Nat}

theorem Eval.bindParams_congr (h : Congruence P ρ R) (scope : ScopeId) (params : List Ident)
    (args : List Value) :
    R (bindParams scope params args) (bindParams scope (params.map ρ.ident) args) := by
  induction params generalizing args with
  | nil => exact h.pure _
  | cons p ps ih => exact h.bind (h.declareLocal _ _ _ _) fun _ => ih args.tail

theorem Eval.callClosure_congr (h : Congruence P ρ R) (hc : SameCalls ρ R f g)
    (hfail : ∀ c, R (throw (.internal c) : Eval Value) (throw (.internal c))) (k : Function)
    (hp : ∀ k' ∈ k.body.functions, P k') (hl : ∀ l ∈ k.body.loops, n = n' ∧ Looping ρ R)
    (home : ScopeId) (receiver : Value) (args : List Value) :
    R (callClosure f n k home receiver args)
      (callClosure g n' (k.relocate ρ) home receiver args) := by
  obtain ⟨name, params, ⟨o, statements⟩⟩ := k
  simp only [Function.body, Block.functions, Block.loops] at hp hl
  have hbody := runBody_congr h.stmt hc statements hp (fun _ _ => trivial)
    (fun _ _ _ _ => trivial) hl
  refine h.bind (h.addScope _) fun scope => ?_
  refine h.bind (bindParams_congr h scope params args) fun _ => ?_
  refine h.bind (h.inScope scope hbody) fun c => ?_
  cases c with
  | normal | giveBack => exact h.pure _
  | leave | skip => exact hfail _

end ScriptEngine
