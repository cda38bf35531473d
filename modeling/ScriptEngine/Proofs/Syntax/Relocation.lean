import ScriptEngine.Syntax.Tree

/-!
# Relocated trees

A relocation moves the origins of a tree and keeps their texts. `stay` moves nothing, and `forget`
leaves only the texts, so two trees that differ in their layout alone are the same once their layout
is forgotten.
-/

namespace ScriptEngine

open Text

/-- A change of spans and slices that keeps the text of every slice. Lines and columns are moved
alike wherever they are kept, and a place that was never set is not moved. -/
structure Relocation where
  span : Span → Span
  slice : Token.Slice → Token.Slice
  line : Nat → Nat
  column : Nat → Nat
  text_slice (s : Token.Slice) : (slice s).text = s.text
  line_span (s : Span) : (span s).line = line s.line
  column_span (s : Span) : (span s).column = column s.column
  line_zero : line 0 = 0
  column_zero : column 0 = 0

namespace Relocation

def stay : Relocation where
  span s := s
  slice s := s
  line n := n
  column n := n
  text_slice _ := rfl
  line_span _ := rfl
  column_span _ := rfl
  line_zero := rfl
  column_zero := rfl

/-- All spans become the same, and of a slice only its text is left. -/
def forget : Relocation where
  span _ := ⟨0, 0, 0, 0⟩
  slice s := Token.Slice.clamp #[⟨.string s.text, s.text, ⟨0, 0, 0, 0⟩⟩] 0 1
  line _ := 0
  column _ := 0
  text_slice s := by simp [Token.Slice.text, Token.Slice.tokens, Token.Slice.clamp, Token.spell]
  line_span _ := rfl
  column_span _ := rfl
  line_zero := rfl
  column_zero := rfl

variable (ρ : Relocation)

def origin (o : Origin) : Origin :=
  ⟨ρ.span o.span, ρ.slice o.tokens⟩

def ident (i : Ident) : Ident :=
  ⟨i.name, ρ.span i.span⟩

@[simp] theorem text_origin (o : Origin) : (ρ.origin o).text = o.text :=
  ρ.text_slice o.tokens

@[simp] theorem name_ident (i : Ident) : (ρ.ident i).name = i.name := rfl

@[simp] theorem map_name_ident (is : List Ident) :
    (is.map ρ.ident).map Ident.name = is.map Ident.name := by
  simp

@[simp] theorem origin_stay (o : Origin) : stay.origin o = o := rfl

@[simp] theorem ident_stay : stay.ident = id := rfl

end Relocation

variable (ρ : Relocation)

mutual

def Expr.relocate : Expr → Expr
  | .number o value => .number (ρ.origin o) value
  | .string o value => .string (ρ.origin o) value
  | .bool o value => .bool (ρ.origin o) value
  | .null o => .null (ρ.origin o)
  | .array o items => .array (ρ.origin o) (Expr.relocateAll items)
  | .object o fields => .object (ρ.origin o) (Field.relocateAll fields)
  | .function o f => .function (ρ.origin o) f.relocate
  | .identifier o name => .identifier (ρ.origin o) name
  | .this o => .this (ρ.origin o)
  | .binary o op left right => .binary (ρ.origin o) op left.relocate right.relocate
  | .logical o op left right => .logical (ρ.origin o) op left.relocate right.relocate
  | .coalesce o left right => .coalesce (ρ.origin o) left.relocate right.relocate
  | .unary o op operand => .unary (ρ.origin o) op operand.relocate
  | .update o op side target => .update (ρ.origin o) op side target.relocate
  | .assign o target value => .assign (ρ.origin o) target.relocate value.relocate
  | .compound o op target value => .compound (ρ.origin o) op target.relocate value.relocate
  | .conditional o test yes no =>
    .conditional (ρ.origin o) test.relocate yes.relocate no.relocate
  | .member o object property => .member (ρ.origin o) object.relocate property.relocate
  | .call o callee args => .call (ρ.origin o) callee.relocate (Expr.relocateAll args)
  | .construct o callee args => .construct (ρ.origin o) callee.relocate (Expr.relocateAll args)
termination_by structural e => e

def Expr.relocateAll : List Expr → List Expr
  | [] => []
  | e :: es => e.relocate :: Expr.relocateAll es
termination_by structural es => es

def Expr.relocateIfAny : Option Expr → Option Expr
  | none => none
  | some e => some e.relocate
termination_by structural e => e

def Field.relocate : Field → Field
  | .mk key value => .mk key value.relocate
termination_by structural f => f

def Field.relocateAll : List Field → List Field
  | [] => []
  | f :: fields => f.relocate :: Field.relocateAll fields
termination_by structural fields => fields

def Property.relocate : Property → Property
  | .named name => .named (ρ.ident name)
  | .computed key => .computed key.relocate
termination_by structural p => p

def Target.relocate : Target → Target
  | .name name => .name (ρ.ident name)
  | .member object property => .member object.relocate property.relocate
termination_by structural t => t

def Function.relocate : Function → Function
  | .mk name params body => .mk (name.map ρ.ident) (params.map ρ.ident) body.relocate
termination_by structural f => f

def Block.relocate : Block → Block
  | .mk o statements => .mk (ρ.origin o) (Stmt.relocateAll statements)
termination_by structural b => b

def Block.relocateIfAny : Option Block → Option Block
  | none => none
  | some b => some b.relocate
termination_by structural b => b

def Stmt.relocate : Stmt → Stmt
  | .expression o e => .expression (ρ.origin o) e.relocate
  | .declaration o kind declarators =>
    .declaration (ρ.origin o) kind (Declarator.relocateAll declarators)
  | .function o name f => .function (ρ.origin o) (ρ.ident name) f.relocate
  | .block o body => .block (ρ.origin o) body.relocate
  | .branch o condition yes no =>
    .branch (ρ.origin o) condition.relocate yes.relocate (Stmt.relocateIfAny no)
  | .whileLoop o condition body => .whileLoop (ρ.origin o) condition.relocate body.relocate
  | .forLoop o init condition update body =>
    .forLoop (ρ.origin o) (Stmt.relocateIfAny init) (Expr.relocateIfAny condition)
      (Expr.relocateIfAny update) body.relocate
  | .switch o discriminant cases =>
    .switch (ρ.origin o) discriminant.relocate (SwitchCase.relocateAll cases)
  | .breakLoop o => .breakLoop (ρ.origin o)
  | .continueLoop o => .continueLoop (ρ.origin o)
  | .raise o value => .raise (ρ.origin o) value.relocate
  | .attempt o body handler finalizer =>
    .attempt (ρ.origin o) body.relocate (Handler.relocateIfAny handler)
      (Block.relocateIfAny finalizer)
  | .giveBack o value => .giveBack (ρ.origin o) (Expr.relocateIfAny value)
  | .empty o => .empty (ρ.origin o)
termination_by structural s => s

def Stmt.relocateAll : List Stmt → List Stmt
  | [] => []
  | s :: ss => s.relocate :: Stmt.relocateAll ss
termination_by structural ss => ss

def Stmt.relocateIfAny : Option Stmt → Option Stmt
  | none => none
  | some s => some s.relocate
termination_by structural s => s

def Declarator.relocate : Declarator → Declarator
  | .mk name init => .mk (ρ.ident name) (Expr.relocateIfAny init)
termination_by structural d => d

def Declarator.relocateAll : List Declarator → List Declarator
  | [] => []
  | d :: ds => d.relocate :: Declarator.relocateAll ds
termination_by structural ds => ds

def SwitchCase.relocate : SwitchCase → SwitchCase
  | .mk test body => .mk (Expr.relocateIfAny test) (Stmt.relocateAll body)
termination_by structural c => c

def SwitchCase.relocateAll : List SwitchCase → List SwitchCase
  | [] => []
  | c :: cases => c.relocate :: SwitchCase.relocateAll cases
termination_by structural cs => cs

def Handler.relocate : Handler → Handler
  | .mk param body => .mk (param.map ρ.ident) body.relocate
termination_by structural h => h

def Handler.relocateIfAny : Option Handler → Option Handler
  | none => none
  | some h => some h.relocate
termination_by structural h => h

end

@[simp] theorem Expr.origin_relocate (e : Expr) : (e.relocate ρ).origin = ρ.origin e.origin := by
  cases e <;> rfl

@[simp] theorem Expr.text_relocate (e : Expr) : (e.relocate ρ).text = e.text := by
  rw [text, text, origin_relocate, ρ.text_origin]

theorem Expr.relocate_withOrigin (o : Origin) (e : Expr) :
    (e.withOrigin o).relocate ρ = (e.relocate ρ).withOrigin (ρ.origin o) := by
  cases e <;> rfl

theorem Expr.target?_relocate (e : Expr) :
    (e.relocate ρ).target? = e.target?.map (Target.relocate ρ) := by
  cases e <;> rfl

@[simp] theorem Function.text_relocate (f : Function) : (f.relocate ρ).text = f.text := by
  obtain ⟨name, params, ⟨o, statements⟩⟩ := f
  simp only [text, Function.relocate, Function.name, Function.params, Function.body, Block.relocate,
    Block.origin, ρ.text_origin, ρ.map_name_ident]
  cases name <;> rfl

@[simp] theorem Function.name_relocate (f : Function) :
    (f.relocate ρ).name.map Ident.name = f.name.map Ident.name := by
  obtain ⟨name, params, body⟩ := f
  cases name <;> rfl

section Lists

theorem Expr.relocateAll_eq_map (es : List Expr) :
    Expr.relocateAll ρ es = es.map (Expr.relocate ρ) := by
  induction es with
  | nil => rfl
  | cons e es ih => exact congrArg (_ :: ·) ih

theorem Field.relocateAll_eq_map (fields : List Field) :
    Field.relocateAll ρ fields = fields.map (Field.relocate ρ) := by
  induction fields with
  | nil => rfl
  | cons f fields ih => exact congrArg (_ :: ·) ih

theorem Stmt.relocateAll_eq_map (ss : List Stmt) :
    Stmt.relocateAll ρ ss = ss.map (Stmt.relocate ρ) := by
  induction ss with
  | nil => rfl
  | cons s ss ih => exact congrArg (_ :: ·) ih

theorem Declarator.relocateAll_eq_map (ds : List Declarator) :
    Declarator.relocateAll ρ ds = ds.map (Declarator.relocate ρ) := by
  induction ds with
  | nil => rfl
  | cons d ds ih => exact congrArg (_ :: ·) ih

theorem SwitchCase.relocateAll_eq_map (cases : List SwitchCase) :
    SwitchCase.relocateAll ρ cases = cases.map (SwitchCase.relocate ρ) := by
  induction cases with
  | nil => rfl
  | cons c cases ih => exact congrArg (_ :: ·) ih

theorem Expr.relocateIfAny_eq_map (e : Option Expr) :
    Expr.relocateIfAny ρ e = e.map (Expr.relocate ρ) := by
  cases e <;> rfl

theorem Block.relocateIfAny_eq_map (b : Option Block) :
    Block.relocateIfAny ρ b = b.map (Block.relocate ρ) := by
  cases b <;> rfl

theorem Stmt.relocateIfAny_eq_map (s : Option Stmt) :
    Stmt.relocateIfAny ρ s = s.map (Stmt.relocate ρ) := by
  cases s <;> rfl

theorem Handler.relocateIfAny_eq_map (h : Option Handler) :
    Handler.relocateIfAny ρ h = h.map (Handler.relocate ρ) := by
  cases h <;> rfl

end Lists

section Stay

open Relocation

mutual

@[simp] theorem Expr.relocate_stay (e : Expr) : e.relocate stay = e := by
  match e with
  | .number .. | .string .. | .bool .. | .null .. | .identifier .. | .this .. => rfl
  | .array _ items => simp [Expr.relocate, Expr.relocateAll_stay items]
  | .object _ fields => simp [Expr.relocate, Field.relocateAll_stay fields]
  | .function _ f => simp [Expr.relocate, Function.relocate_stay f]
  | .binary _ _ l r | .logical _ _ l r | .coalesce _ l r =>
    simp [Expr.relocate, Expr.relocate_stay l, Expr.relocate_stay r]
  | .unary _ _ x => simp [Expr.relocate, Expr.relocate_stay x]
  | .update _ _ _ t => simp [Expr.relocate, Target.relocate_stay t]
  | .assign _ t v | .compound _ _ t v =>
    simp [Expr.relocate, Target.relocate_stay t, Expr.relocate_stay v]
  | .conditional _ a b c =>
    simp [Expr.relocate, Expr.relocate_stay a, Expr.relocate_stay b, Expr.relocate_stay c]
  | .member _ x p => simp [Expr.relocate, Expr.relocate_stay x, Property.relocate_stay p]
  | .call _ f args | .construct _ f args =>
    simp [Expr.relocate, Expr.relocate_stay f, Expr.relocateAll_stay args]
termination_by structural e

@[simp] theorem Expr.relocateAll_stay (es : List Expr) : Expr.relocateAll stay es = es := by
  match es with
  | [] => rfl
  | e :: es => simp [Expr.relocateAll, Expr.relocate_stay e, Expr.relocateAll_stay es]
termination_by structural es

@[simp] theorem Expr.relocateIfAny_stay (e : Option Expr) : Expr.relocateIfAny stay e = e := by
  match e with
  | none => rfl
  | some e => simp [Expr.relocateIfAny, Expr.relocate_stay e]
termination_by structural e

@[simp] theorem Field.relocate_stay (f : Field) : f.relocate stay = f := by
  match f with
  | .mk _ value => simp [Field.relocate, Expr.relocate_stay value]
termination_by structural f

@[simp] theorem Field.relocateAll_stay (fs : List Field) : Field.relocateAll stay fs = fs := by
  match fs with
  | [] => rfl
  | f :: fs => simp [Field.relocateAll, Field.relocate_stay f, Field.relocateAll_stay fs]
termination_by structural fs

@[simp] theorem Property.relocate_stay (p : Property) : p.relocate stay = p := by
  match p with
  | .named _ => rfl
  | .computed e => simp [Property.relocate, Expr.relocate_stay e]
termination_by structural p

@[simp] theorem Target.relocate_stay (t : Target) : t.relocate stay = t := by
  match t with
  | .name _ => rfl
  | .member x p => simp [Target.relocate, Expr.relocate_stay x, Property.relocate_stay p]
termination_by structural t

@[simp] theorem Function.relocate_stay (f : Function) : f.relocate stay = f := by
  match f with
  | .mk _ _ body => simp [Function.relocate, Block.relocate_stay body]
termination_by structural f

@[simp] theorem Block.relocate_stay (b : Block) : b.relocate stay = b := by
  match b with
  | .mk _ ss => simp [Block.relocate, Stmt.relocateAll_stay ss]
termination_by structural b

@[simp] theorem Block.relocateIfAny_stay (b : Option Block) : Block.relocateIfAny stay b = b := by
  match b with
  | none => rfl
  | some b => simp [Block.relocateIfAny, Block.relocate_stay b]
termination_by structural b

@[simp] theorem Stmt.relocate_stay (s : Stmt) : s.relocate stay = s := by
  match s with
  | .expression _ e | .raise _ e => simp [Stmt.relocate, Expr.relocate_stay e]
  | .declaration _ _ ds => simp [Stmt.relocate, Declarator.relocateAll_stay ds]
  | .function _ _ f => simp [Stmt.relocate, Function.relocate_stay f]
  | .block _ b => simp [Stmt.relocate, Block.relocate_stay b]
  | .branch _ e yes no =>
    simp [Stmt.relocate, Expr.relocate_stay e, Stmt.relocate_stay yes, Stmt.relocateIfAny_stay no]
  | .whileLoop _ e body => simp [Stmt.relocate, Expr.relocate_stay e, Stmt.relocate_stay body]
  | .forLoop _ init e u body =>
    simp [Stmt.relocate, Stmt.relocateIfAny_stay init, Expr.relocateIfAny_stay e,
      Expr.relocateIfAny_stay u, Stmt.relocate_stay body]
  | .switch _ e cases =>
    simp [Stmt.relocate, Expr.relocate_stay e, SwitchCase.relocateAll_stay cases]
  | .breakLoop _ | .continueLoop _ | .empty _ => rfl
  | .attempt _ b h f =>
    simp [Stmt.relocate, Block.relocate_stay b, Handler.relocateIfAny_stay h,
      Block.relocateIfAny_stay f]
  | .giveBack _ e => simp [Stmt.relocate, Expr.relocateIfAny_stay e]
termination_by structural s

@[simp] theorem Stmt.relocateAll_stay (ss : List Stmt) : Stmt.relocateAll stay ss = ss := by
  match ss with
  | [] => rfl
  | s :: ss => simp [Stmt.relocateAll, Stmt.relocate_stay s, Stmt.relocateAll_stay ss]
termination_by structural ss

@[simp] theorem Stmt.relocateIfAny_stay (s : Option Stmt) : Stmt.relocateIfAny stay s = s := by
  match s with
  | none => rfl
  | some s => simp [Stmt.relocateIfAny, Stmt.relocate_stay s]
termination_by structural s

@[simp] theorem Declarator.relocate_stay (d : Declarator) : d.relocate stay = d := by
  match d with
  | .mk _ init => simp [Declarator.relocate, Expr.relocateIfAny_stay init]
termination_by structural d

@[simp] theorem Declarator.relocateAll_stay (ds : List Declarator) :
    Declarator.relocateAll stay ds = ds := by
  match ds with
  | [] => rfl
  | d :: ds =>
    simp [Declarator.relocateAll, Declarator.relocate_stay d, Declarator.relocateAll_stay ds]
termination_by structural ds

@[simp] theorem SwitchCase.relocate_stay (c : SwitchCase) : c.relocate stay = c := by
  match c with
  | .mk test body =>
    simp [SwitchCase.relocate, Expr.relocateIfAny_stay test, Stmt.relocateAll_stay body]
termination_by structural c

@[simp] theorem SwitchCase.relocateAll_stay (cs : List SwitchCase) :
    SwitchCase.relocateAll stay cs = cs := by
  match cs with
  | [] => rfl
  | c :: cs =>
    simp [SwitchCase.relocateAll, SwitchCase.relocate_stay c, SwitchCase.relocateAll_stay cs]
termination_by structural cs

@[simp] theorem Handler.relocate_stay (h : Handler) : h.relocate stay = h := by
  match h with
  | .mk _ body => simp [Handler.relocate, Block.relocate_stay body]
termination_by structural h

@[simp] theorem Handler.relocateIfAny_stay (h : Option Handler) :
    Handler.relocateIfAny stay h = h := by
  match h with
  | none => rfl
  | some h => simp [Handler.relocateIfAny, Handler.relocate_stay h]
termination_by structural h

end

end Stay

end ScriptEngine
