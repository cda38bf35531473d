import ScriptEngine.Proofs.Evaluation.LooseEquality

/-!
# Compound forms and what they abbreviate

A compound assignment reads and writes one resolved place. Written out as an assignment, its target
is resolved once to be written and evaluated a second time to be read. For a name and for a named
property of a name the second evaluation finds the machine as the first has left it: neither form
runs anything of the program between the two, and whatever they run later is the same in both.
-/

namespace ScriptEngine

open Eval

/-- An expression that is a name or a named property of a name. -/
inductive Expr.IsPlainTarget : Expr → Prop
  | name (o : Origin) (name : String) : IsPlainTarget (.identifier o name)
  | property (o base : Origin) (name : String) (key : Ident) :
    IsPlainTarget (.member o (.identifier base name) (.named key))

namespace Eval

theorem state_of_lookup {name : String} {m m' : Machine} {v : Value}
    (h : lookup name m = .ok v m') : m' = m := by
  simp only [lookup, reading, bind, EStateM.bind] at h
  cases hg : m.scopes.get m.current name with
  | ok found =>
    simp only [hg] at h
    exact (EStateM.Result.ok.inj h).2.symm
  | error e =>
    simp only [hg] at h
    exact (yields_throwNamed (Q := fun _ => False) _ _ m v m' h).elim

theorem lookup_bind_congr {α : Type} {name : String} {f g : Value → Eval α}
    (h : ∀ v m, lookup name m = .ok v m → f v m = g v m) :
    lookup name >>= f = lookup name >>= g := by
  funext m
  simp only [bind, EStateM.bind]
  cases hm : lookup name m with
  | ok v m' =>
    obtain rfl := state_of_lookup hm
    exact h v m' hm
  | error e m' => rfl

variable {base : Value} {key source : String}

theorem checkBase_of_isNullish_eq_false (access : Access) (h : base.isNullish = false) :
    checkBase access base key source = pure () := by
  rw [checkBase, h]
  rfl

theorem checkBase_bind_of_isNullish {α : Type} (access : Access) (h : base.isNullish = true)
    (f g : Unit → Eval α) :
    checkBase access base key source >>= f = checkBase access base key source >>= g := by
  rw [checkBase, h]
  rfl

end Eval

variable (invoke : Invoke) {t : Expr} {target : Target}

theorem Expr.IsPlainTarget.resolve_read (h : t.IsPlainTarget) (ht : t.target? = some target)
    {α : Type} (f : Place → Value → Eval α) :
    (do let place ← target.resolve invoke; let v ← place.read; f place v) =
      (do let place ← target.resolve invoke; let v ← t.eval invoke; f place v) := by
  cases h with
  | name o name =>
    cases ht
    rfl
  | property o base name key =>
    cases ht
    simp only [Target.resolve, Expr.eval, Property.key, Place.read, bind_assoc, pure_bind]
    refine lookup_bind_congr fun v m hv => ?_
    cases hn : v.isNullish with
    | true => exact congrFun (checkBase_bind_of_isNullish .write hn _ _) m
    | false =>
      -- The base can be written to, so reading it is not refused either.
      simp only [checkBase_of_isNullish_eq_false _ hn, pure_bind]
      rw [bind_of_ok hv, checkBase_of_isNullish_eq_false .read hn, pure_bind]

theorem eval_compound_eq_eval_assign (h : t.IsPlainTarget) (ht : t.target? = some target)
    (o o₁ o₂ : Origin) (op : BinaryOp) (e : Expr) :
    (Expr.compound o op target e).eval invoke =
      (Expr.assign o₁ target (.binary o₂ op t e)).eval invoke := by
  simp only [Expr.eval, bind_assoc]
  exact h.resolve_read invoke ht _

def UpdateOp.binary : UpdateOp → BinaryOp
  | .increment => .add
  | .decrement => .sub

/-- The old value is a number when the operator gets it, so neither operator converts it again. -/
theorem updateAt_before (op : UpdateOp) (place : Place) (current : Value) :
    updateAt invoke op .before place current =
      (do
        let old ← toNumber invoke current
        let new ← Eval.binary invoke op.binary (.number old) (.number 1)
        place.write invoke new
        return new) := by
  refine bind_congr fun old => ?_
  cases op <;> rfl

theorem eval_update_eq_eval_assign (h : t.IsPlainTarget) (ht : t.target? = some target)
    (o o₁ o₂ o₃ o₄ : Origin) (op : UpdateOp) :
    (Expr.update o op .before target).eval invoke =
      (Expr.assign o₁ target
        (.binary o₂ op.binary (.unary o₃ .plus t) (.number o₄ 1))).eval invoke := by
  simp only [Expr.eval, updateAt_before, bind_assoc, pure_bind, Eval.unary]
  exact h.resolve_read invoke ht _

/-- On every machine, a compound assignment to a name or to a named property of a name ends like the
assignment it abbreviates, with the same value or failure and the same machine behind it, and so do
the two updates that are written before their target. -/
theorem compound_forms_expand (invoke : Invoke) {t : Expr} {target : Target}
    (h : t.IsPlainTarget) (ht : t.target? = some target) (o o₁ o₂ o₃ o₄ : Origin) (m : Machine) :
    (∀ op e, (Expr.compound o op target e).eval invoke m =
      (Expr.assign o₁ target (.binary o₂ op t e)).eval invoke m) ∧
    (Expr.update o .increment .before target).eval invoke m =
      (Expr.assign o₁ target (.binary o₂ .add (.unary o₃ .plus t) (.number o₄ 1))).eval invoke m ∧
    (Expr.update o .decrement .before target).eval invoke m =
      (Expr.assign o₁ target (.binary o₂ .sub (.unary o₃ .plus t) (.number o₄ 1))).eval invoke m :=
  ⟨fun op e => by rw [eval_compound_eq_eval_assign invoke h ht o o₁ o₂],
    by rw [eval_update_eq_eval_assign invoke h ht o o₁ o₂ o₃ o₄]; rfl,
    by rw [eval_update_eq_eval_assign invoke h ht o o₁ o₂ o₃ o₄]; rfl⟩

/-- The property `x` of `point`, with a call of `next` on the right. -/
theorem compound_forms_expand_property :
    Expr.IsPlainTarget (.member default (.identifier default "point") (.named ⟨"x", default⟩)) ∧
    ∀ m,
      (Expr.compound default .add (.member (.identifier default "point") (.named ⟨"x", default⟩))
        (.call default (.identifier default "next") [])).eval (Eval.invoke 9) m =
      (Expr.assign default (.member (.identifier default "point") (.named ⟨"x", default⟩))
        (.binary default .add
          (.member default (.identifier default "point") (.named ⟨"x", default⟩))
          (.call default (.identifier default "next") []))).eval (Eval.invoke 9) m :=
  ⟨.property .., fun m =>
    (compound_forms_expand _ (.property ..) rfl default default default default
    default m).1 .add _⟩

end ScriptEngine
