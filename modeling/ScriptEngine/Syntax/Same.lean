import ScriptEngine.Syntax.Tree

/-!
# Sameness of trees

Two trees are the same when they differ in their origins only.
-/

namespace ScriptEngine

def Ident.same (a b : Ident) : Bool :=
  a.name == b.name

def Ident.sameOption : Option Ident → Option Ident → Bool
  | none, none => true
  | some a, some b => a.same b
  | _, _ => false

def Ident.sameList : List Ident → List Ident → Bool
  | [], [] => true
  | a :: as, b :: bs => a.same b && sameList as bs
  | _, _ => false

mutual

def Expr.same : Expr → Expr → Bool
  | .number _ x, e => match e with
    | .number _ y => x == y
    | _ => false
  | .string _ x, e => match e with
    | .string _ y => x == y
    | _ => false
  | .bool _ x, e => match e with
    | .bool _ y => x == y
    | _ => false
  | .null _, e => match e with
    | .null _ => true
    | _ => false
  | .array _ xs, e => match e with
    | .array _ ys => Expr.sameList xs ys
    | _ => false
  | .object _ xs, e => match e with
    | .object _ ys => Field.sameList xs ys
    | _ => false
  | .function _ f, e => match e with
    | .function _ g => f.same g
    | _ => false
  | .identifier _ x, e => match e with
    | .identifier _ y => x == y
    | _ => false
  | .this _, e => match e with
    | .this _ => true
    | _ => false
  | .binary _ op l r, e => match e with
    | .binary _ op' l' r' => op == op' && l.same l' && r.same r'
    | _ => false
  | .logical _ op l r, e => match e with
    | .logical _ op' l' r' => op == op' && l.same l' && r.same r'
    | _ => false
  | .coalesce _ l r, e => match e with
    | .coalesce _ l' r' => l.same l' && r.same r'
    | _ => false
  | .unary _ op x, e => match e with
    | .unary _ op' x' => op == op' && x.same x'
    | _ => false
  | .update _ op side t, e => match e with
    | .update _ op' side' t' => op == op' && side == side' && t.same t'
    | _ => false
  | .assign _ t v, e => match e with
    | .assign _ t' v' => t.same t' && v.same v'
    | _ => false
  | .compound _ op t v, e => match e with
    | .compound _ op' t' v' => op == op' && t.same t' && v.same v'
    | _ => false
  | .conditional _ a b c, e => match e with
    | .conditional _ a' b' c' => a.same a' && b.same b' && c.same c'
    | _ => false
  | .member _ o p, e => match e with
    | .member _ o' p' => o.same o' && p.same p'
    | _ => false
  | .call _ f xs, e => match e with
    | .call _ g ys => f.same g && Expr.sameList xs ys
    | _ => false
  | .construct _ f xs, e => match e with
    | .construct _ g ys => f.same g && Expr.sameList xs ys
    | _ => false
termination_by structural x => x

def Expr.sameList : List Expr → List Expr → Bool
  | [], es => es.isEmpty
  | x :: xs, es => match es with
    | y :: ys => x.same y && Expr.sameList xs ys
    | [] => false
termination_by structural x => x

def Expr.sameOption : Option Expr → Option Expr → Bool
  | none, o => o.isNone
  | some x, o => match o with
    | some y => x.same y
    | none => false
termination_by structural x => x

def Field.sameList : List Field → List Field → Bool
  | [], fs => fs.isEmpty
  | .mk k x :: xs, fs => match fs with
    | .mk k' y :: ys => k == k' && x.same y && Field.sameList xs ys
    | [] => false
termination_by structural x => x

def Property.same : Property → Property → Bool
  | .named x, p => match p with
    | .named y => x.same y
    | _ => false
  | .computed x, p => match p with
    | .computed y => x.same y
    | _ => false
termination_by structural x => x

def Target.same : Target → Target → Bool
  | .name x, t => match t with
    | .name y => x.same y
    | _ => false
  | .member o p, t => match t with
    | .member o' p' => o.same o' && p.same p'
    | _ => false
termination_by structural x => x

def Function.same : Function → Function → Bool
  | .mk n ps b, .mk n' ps' b' => Ident.sameOption n n' && Ident.sameList ps ps' && b.same b'
termination_by structural x => x

def Block.same : Block → Block → Bool
  | .mk _ ss, .mk _ ts => Stmt.sameList ss ts
termination_by structural x => x

def Block.sameOption : Option Block → Option Block → Bool
  | none, o => o.isNone
  | some x, o => match o with
    | some y => x.same y
    | none => false
termination_by structural x => x

def Stmt.same : Stmt → Stmt → Bool
  | .expression _ x, s => match s with
    | .expression _ y => x.same y
    | _ => false
  | .declaration _ k ds, s => match s with
    | .declaration _ k' ds' => k == k' && Declarator.sameList ds ds'
    | _ => false
  | .function _ n f, s => match s with
    | .function _ n' f' => n.same n' && f.same f'
    | _ => false
  | .block _ b, s => match s with
    | .block _ b' => b.same b'
    | _ => false
  | .branch _ c y n, s => match s with
    | .branch _ c' y' n' => c.same c' && y.same y' && Stmt.sameOption n n'
    | _ => false
  | .whileLoop _ c b, s => match s with
    | .whileLoop _ c' b' => c.same c' && b.same b'
    | _ => false
  | .forLoop _ i c u b, s => match s with
    | .forLoop _ i' c' u' b' =>
      Stmt.sameOption i i' && Expr.sameOption c c' && Expr.sameOption u u' && b.same b'
    | _ => false
  | .switch _ d cs, s => match s with
    | .switch _ d' cs' => d.same d' && SwitchCase.sameList cs cs'
    | _ => false
  | .breakLoop _, s => match s with
    | .breakLoop _ => true
    | _ => false
  | .continueLoop _, s => match s with
    | .continueLoop _ => true
    | _ => false
  | .raise _ x, s => match s with
    | .raise _ y => x.same y
    | _ => false
  | .attempt _ b h f, s => match s with
    | .attempt _ b' h' f' => b.same b' && Handler.sameOption h h' && Block.sameOption f f'
    | _ => false
  | .giveBack _ x, s => match s with
    | .giveBack _ y => Expr.sameOption x y
    | _ => false
  | .empty _, s => match s with
    | .empty _ => true
    | _ => false
termination_by structural x => x

def Stmt.sameList : List Stmt → List Stmt → Bool
  | [], ss => ss.isEmpty
  | x :: xs, ss => match ss with
    | y :: ys => x.same y && Stmt.sameList xs ys
    | [] => false
termination_by structural x => x

def Stmt.sameOption : Option Stmt → Option Stmt → Bool
  | none, o => o.isNone
  | some x, o => match o with
    | some y => x.same y
    | none => false
termination_by structural x => x

def Declarator.sameList : List Declarator → List Declarator → Bool
  | [], ds => ds.isEmpty
  | .mk n x :: xs, ds => match ds with
    | .mk n' y :: ys => n.same n' && Expr.sameOption x y && Declarator.sameList xs ys
    | [] => false
termination_by structural x => x

def SwitchCase.sameList : List SwitchCase → List SwitchCase → Bool
  | [], cs => cs.isEmpty
  | .mk t b :: xs, cs => match cs with
    | .mk t' b' :: ys =>
      Expr.sameOption t t' && Stmt.sameList b b' && SwitchCase.sameList xs ys
    | [] => false
termination_by structural x => x

def Handler.sameOption : Option Handler → Option Handler → Bool
  | none, o => o.isNone
  | some (.mk p b), o => match o with
    | some (.mk p' b') => Ident.sameOption p p' && b.same b'
    | none => false
termination_by structural x => x

end

namespace Expr

@[simp] theorem same_withOrigin (o : Origin) (e e' : Expr) :
    (e.withOrigin o).same e' = e.same e' := by
  cases e <;> simp only [withOrigin, same]

@[simp] theorem same_withOrigin_right (o : Origin) (e e' : Expr) :
    e.same (e'.withOrigin o) = e.same e' := by
  cases e <;> cases e' <;> rfl

end Expr

end ScriptEngine
