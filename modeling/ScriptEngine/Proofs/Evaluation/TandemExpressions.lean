import ScriptEngine.Proofs.Evaluation.TandemNatives

/-!
# Expressions in tandem

The induction over expressions: with calls in tandem, an expression whose lists have no more entries
than are admitted runs in tandem with itself.
-/

namespace ScriptEngine

open Eval

namespace Tandem.Lawful

variable {S : Tandem} {w : S.World} {f g : Invoke}

section Calls

variable (L : S.Lawful) (hc : S.Calls f g)

include L hc

theorem callAt (o : Origin) (source : String) (callee : Value) {receiver : Value}
    (hreceiver : S.sound w receiver) {args : List Value} (hargs : ∀ v ∈ args, S.sound w v)
    (hlength : S.admits args.length) :
    S.Runs w S.sound (Eval.callAt f o source callee receiver args)
      (Eval.callAt g o source callee receiver args) := by
  refine Runs.ofReading fun m m' hm => ?_
  rw [(L.alike hm).heap.callable?]
  split
  · exact L.throwNamed _ _
  · refine Runs.ofReading fun m m' hm => ?_
    rw [(L.alike hm).heap.functionName]
    exact hc _ _ _ _ _ hreceiver hargs hlength

theorem constructWith (id : ObjectId) {args : List Value} (hargs : ∀ v ∈ args, S.sound w v)
    (hlength : S.admits args.length) (frame : Frame) :
    S.Runs w S.sound (Eval.constructWith f id args frame) (Eval.constructWith g id args frame) := by
  refine L.bind (A := fun w p => S.sound w (.object p)) ?_ fun w₁ p h₁ hp => ?_
  · refine L.reading fun m m' hm => ?_
    rw [(L.alike hm).heap.get]
    have hprototype := L.get hm id "prototype"
    split
    next p heq => exact ⟨rfl, heq ▸ hprototype⟩
    next => exact ⟨rfl, L.proto hm .object⟩
  · refine L.bind (L.alloc (.plain hp)) fun w₂ fresh h₂ hfresh => ?_
    have hargs₂ := L.all_mono (L.trans h₁ h₂) hargs
    refine L.bind (hc _ _ _ _ _ hfresh.1 hargs₂ hlength) fun w₃ result h₃ hresult => L.pure ?_
    split
    · exact hresult
    · exact L.sound_mono h₃ hfresh.1

theorem constructAt (o : Origin) (source : String) (callee : Value) {args : List Value}
    (hargs : ∀ v ∈ args, S.sound w v) (hlength : S.admits args.length) :
    S.Runs w S.sound (Eval.constructAt f o source callee args)
      (Eval.constructAt g o source callee args) := by
  refine Runs.ofReading fun m m' hm => ?_
  rw [(L.alike hm).heap.callable?]
  split
  · exact L.throwNamed _ _
  next id _ =>
    refine Runs.ofReading fun m m' hm => ?_
    rw [(L.alike hm).heap.functionName]
    refine Runs.ofReading fun m m' hm => ?_
    have halike := (L.alike hm).heap id
    generalize m.heap.object id = object, m'.heap.object id = object' at halike
    cases halike with
    | closure => exact L.constructWith hc id hargs hlength _
    | refl =>
      split
      · exact L.constructWith hc id hargs hlength _
      · exact hc _ _ _ _ _ (L.primitive rfl) hargs hlength

theorem writePlace (place : Place) {v : Value} (hv : S.sound w v) :
    S.Runs w S.any (place.write f v) (place.write g v) := by
  cases place with
  | binding name => exact L.assign name hv
  | property base key => exact L.setProperty hc base key hv

omit hc in
theorem readPlace (place : Place) : S.Runs w S.sound place.read place.read := by
  cases place with
  | binding name => exact L.lookup name
  | property base key => exact L.getProperty base key

theorem updateAt (op : UpdateOp) (side : Side) (place : Place) {current : Value}
    (hcurrent : S.sound w current) :
    S.Runs w S.sound (Eval.updateAt f op side place current)
      (Eval.updateAt g op side place current) := by
  refine L.bind (L.toNumber hc hcurrent) fun w₁ old h₁ _ => ?_
  refine L.bind (L.writePlace hc place (L.primitive rfl)) fun w₂ _ h₂ _ => ?_
  cases side <;> exact L.pure (L.primitive rfl)

theorem evalCall (o : Origin) {callee : Expr}
    (hmember : ∀ o' object property, callee ≠ .member o' object property) {args : List Expr}
    (hcallee : S.Runs w S.sound (callee.eval f) (callee.eval g))
    (hargs : ∀ w₁, S.Runs w₁ (S.values args.length) (Expr.evalList f args) (Expr.evalList g args))
    (hlength : S.admits args.length) :
    S.Runs w S.sound ((Expr.call o callee args).eval f) ((Expr.call o callee args).eval g) := by
  rw [Expr.eval, Expr.eval]
  · refine L.bind hcallee fun w₁ v h₁ hv => L.bind (hargs w₁) fun w₂ values h₂ hvalues => ?_
    exact L.callAt hc _ _ _ (L.primitive rfl) hvalues.2 (hvalues.1 ▸ hlength)
  · exact fun o' object property heq => hmember o' object property heq
  · exact fun o' object property heq => hmember o' object property heq

theorem evalUnary (o : Origin) (op : UnaryOp) {operand : Expr}
    (hname : op = .typeOf → ∀ o' name, operand ≠ .identifier o' name)
    (hoperand : S.Runs w S.sound (operand.eval f) (operand.eval g)) :
    S.Runs w S.sound ((Expr.unary o op operand).eval f) ((Expr.unary o op operand).eval g) := by
  rw [Expr.eval, Expr.eval]
  · exact L.bind hoperand fun w₁ v h₁ hv => L.unary hc op hv
  · exact fun o' name hop heq => hname hop o' name heq
  · exact fun o' name hop heq => hname hop o' name heq

end Calls

mutual

theorem eval (L : S.Lawful) (hc : S.Calls f g) (e : Expr) (he : ∀ n ∈ e.entries, S.admits n)
    (w : S.World) :
    S.Runs w S.sound (e.eval f) (e.eval g) := by
  match e with
  | .number .. | .string .. | .bool .. | .null .. => exact L.pure (L.primitive rfl)
  | .array _ items =>
    simp only [Expr.entries, List.forall_mem_cons] at he
    refine L.bind (L.evalList hc items he.2 w) fun w₁ values h₁ hvalues => ?_
    refine L.newArray ?_ (by simpa using hvalues.2)
    rw [List.size_toArray, hvalues.1]
    exact he.1
  | .object _ fields =>
    refine L.bind L.newPlain fun w₁ id h₁ hid => ?_
    refine L.bind (L.evalInto hc id fields he w₁ hid.2) fun w₂ _ h₂ _ => ?_
    exact L.pure (L.sound_mono h₂ hid.1)
  | .function _ k => exact L.functionValue he
  | .identifier _ name => exact L.lookup name
  | .this _ => exact L.reading fun m m' hm => L.receiver hm (L.current hm)
  | .binary _ op left right =>
    simp only [Expr.entries, List.forall_mem_append] at he
    refine L.bind (L.eval hc left he.1 w) fun w₁ a h₁ ha => ?_
    refine L.bind (L.eval hc right he.2 w₁) fun w₂ b h₂ hb => ?_
    exact L.binary hc op (L.sound_mono h₂ ha) hb
  | .logical _ op left right =>
    simp only [Expr.entries, List.forall_mem_append] at he
    refine L.bind (L.eval hc left he.1 w) fun w₁ a h₁ ha => ?_
    have hright := L.eval hc right he.2 w₁
    cases op <;> dsimp only <;> split
    · exact hright
    · exact L.pure ha
    · exact L.pure ha
    · exact hright
  | .coalesce _ left right =>
    simp only [Expr.entries, List.forall_mem_append] at he
    refine L.bind (L.eval hc left he.1 w) fun w₁ a h₁ ha => ?_
    split
    · exact L.eval hc right he.2 w₁
    · exact L.pure ha
  | .unary _ op operand =>
    have hoperand := L.eval hc operand he w
    cases op with
    | typeOf =>
      -- `typeof` of a name does not evaluate the name
      cases operand with
      | identifier => exact L.bind (L.lookupOr _) fun w₁ v h₁ hv => L.unary hc _ hv
      | _ => exact L.evalUnary hc _ _ (by nofun) hoperand
    | _ => exact L.evalUnary hc _ _ (by nofun) hoperand
  | .update _ op side target =>
    refine L.bind (L.resolve hc target he w) fun w₁ place h₁ _ => ?_
    exact L.bind (L.readPlace place) fun w₂ current h₂ hv => L.updateAt hc op side place hv
  | .assign _ target value =>
    simp only [Expr.entries, List.forall_mem_append] at he
    refine L.bind (L.resolve hc target he.1 w) fun w₁ place h₁ _ => ?_
    refine L.bind (L.eval hc value he.2 w₁) fun w₂ v h₂ hv => ?_
    exact L.bind (L.writePlace hc place hv) fun w₃ _ h₃ _ => L.pure (L.sound_mono h₃ hv)
  | .compound _ op target value =>
    simp only [Expr.entries, List.forall_mem_append] at he
    refine L.bind (L.resolve hc target he.1 w) fun w₁ place h₁ _ => ?_
    refine L.bind (L.readPlace place) fun w₂ current h₂ hcurrent => ?_
    refine L.bind (L.eval hc value he.2 w₂) fun w₃ operand h₃ hoperand => ?_
    refine L.bind (L.binary hc op (L.sound_mono h₃ hcurrent) hoperand) fun w₄ v h₄ hv => ?_
    exact L.bind (L.writePlace hc place hv) fun w₅ _ h₅ _ => L.pure (L.sound_mono h₅ hv)
  | .conditional _ test yes no =>
    simp only [Expr.entries, List.forall_mem_append] at he
    refine L.bind (L.eval hc test he.1.1 w) fun w₁ v h₁ _ => ?_
    split
    · exact L.eval hc yes he.1.2 w₁
    · exact L.eval hc no he.2 w₁
  | .member _ object property =>
    simp only [Expr.entries, List.forall_mem_append] at he
    refine L.bind (L.eval hc object he.1 w) fun w₁ base h₁ _ => ?_
    refine L.bind (L.key hc property he.2 w₁) fun w₂ key h₂ _ => ?_
    exact L.bind (L.checkBase _ _ _ _) fun w₃ _ h₃ _ => L.getProperty base key
  | .call o callee args =>
    simp only [Expr.entries, List.forall_mem_append, List.forall_mem_cons] at he
    have hcallee := L.eval hc callee he.1 w
    cases callee with
    | member _ object property =>
      simp only [Expr.entries, List.forall_mem_append] at he
      refine L.bind (L.eval hc object he.1.1 w) fun w₁ base h₁ hbase => ?_
      refine L.bind (L.key hc property he.1.2 w₁) fun w₂ key h₂ _ => ?_
      refine L.bind (L.checkBase _ _ _ _) fun w₃ _ h₃ _ => ?_
      refine L.bind (L.getProperty base key) fun w₄ v h₄ _ => ?_
      refine L.bind (L.evalList hc args he.2.2 w₄) fun w₅ values h₅ hvalues => ?_
      have hle := L.trans h₂ (L.trans h₃ (L.trans h₄ h₅))
      exact L.callAt hc _ _ _ (L.sound_mono hle hbase) hvalues.2 (hvalues.1 ▸ he.2.1)
    | _ => exact L.evalCall hc o (by nofun) hcallee (L.evalList hc args he.2.2) he.2.1
  | .construct o callee args =>
    simp only [Expr.entries, List.forall_mem_append, List.forall_mem_cons] at he
    refine L.bind (L.eval hc callee he.1 w) fun w₁ v h₁ _ => ?_
    refine L.bind (L.evalList hc args he.2.2 w₁) fun w₂ values h₂ hvalues => ?_
    exact L.constructAt hc _ _ _ hvalues.2 (hvalues.1 ▸ he.2.1)
termination_by structural e

theorem evalList (L : S.Lawful) (hc : S.Calls f g) (es : List Expr)
    (he : ∀ n ∈ Expr.entriesOf es, S.admits n) (w : S.World) :
    S.Runs w (S.values es.length) (Expr.evalList f es) (Expr.evalList g es) := by
  match es with
  | [] => exact L.pure ⟨rfl, nofun⟩
  | e :: es =>
    simp only [Expr.entriesOf, List.forall_mem_append] at he
    refine L.bind (L.eval hc e he.1 w) fun w₁ v h₁ hv => ?_
    refine L.bind (L.evalList hc es he.2 w₁) fun w₂ vs h₂ hvs => ?_
    refine L.pure ⟨congrArg (· + 1) hvs.1, ?_⟩
    rw [List.forall_mem_cons]
    exact ⟨L.sound_mono h₂ hv, hvs.2⟩
termination_by structural es

theorem evalInto (L : S.Lawful) (hc : S.Calls f g) (id : ObjectId) (fields : List Field)
    (he : ∀ n ∈ Field.entriesOf fields, S.admits n) (w : S.World) (hid : S.plain w id) :
    S.Runs w S.any (Field.evalInto f id fields) (Field.evalInto g id fields) := by
  match fields with
  | [] => exact L.pure trivial
  | .mk key value :: fields =>
    simp only [Field.entriesOf, List.forall_mem_append] at he
    refine L.bind (L.eval hc value he.1 w) fun w₁ v h₁ hv => ?_
    have hid₁ := L.plain_mono h₁ hid
    refine L.bind (L.define hid₁ key hv) fun w₂ _ h₂ _ => ?_
    exact L.evalInto hc id fields he.2 w₂ (L.plain_mono h₂ hid₁)
termination_by structural fields

theorem key (L : S.Lawful) (hc : S.Calls f g) (p : Property) (he : ∀ n ∈ p.entries, S.admits n)
    (w : S.World) :
    S.Runs w S.any (p.key f) (p.key g) := by
  match p with
  | .named _ => exact L.pure trivial
  | .computed e => exact L.bind (L.eval hc e he w) fun w₁ v h₁ hv => L.toText hc hv
termination_by structural p

theorem resolve (L : S.Lawful) (hc : S.Calls f g) (t : Target) (he : ∀ n ∈ t.entries, S.admits n)
    (w : S.World) :
    S.Runs w S.any (t.resolve f) (t.resolve g) := by
  match t with
  | .name _ => exact L.pure trivial
  | .member object property =>
    simp only [Target.entries, List.forall_mem_append] at he
    refine L.bind (L.eval hc object he.1 w) fun w₁ base h₁ _ => ?_
    refine L.bind (L.key hc property he.2 w₁) fun w₂ key h₂ _ => ?_
    exact L.bind (L.checkBase _ _ _ _) fun _ _ _ _ => L.pure trivial
termination_by structural t

end

end Tandem.Lawful

end ScriptEngine
