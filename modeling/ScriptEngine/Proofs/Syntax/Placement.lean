import Mathlib.Logic.Relation
import ScriptEngine.Proofs.Syntax.Window

/-!
# Nodes and their places

Expressions, statements and blocks are the nodes of a tree. A node stands between two indices of a
stream when its origin says so and its children stand there too, one behind the other. What a
parsing step leaves behind is said with a predicate on the index and the result; there is one law
for each step and each loop.
-/

namespace ScriptEngine

open Token SyntaxError

inductive Node where
  | expression (e : Expr)
  | statement (s : Stmt)
  | block (b : Block)

def Property.nodes : Property → List Node
  | .named _ => []
  | .computed key => [.expression key]

def Target.nodes : Target → List Node
  | .name _ => []
  | .member object property => .expression object :: property.nodes

def Field.nodes : Field → List Node
  | .mk _ value => [.expression value]

def Declarator.nodes : Declarator → List Node
  | .mk _ init => init.toList.map Node.expression

def SwitchCase.nodes : SwitchCase → List Node
  | .mk test body => test.toList.map .expression ++ body.map .statement

def Handler.nodes : Handler → List Node
  | .mk _ body => [.block body]

def Expr.children : Expr → List Node
  | .number .. | .string .. | .bool .. | .null _ | .identifier .. | .this _ => []
  | .array _ items => items.map Node.expression
  | .object _ fields => fields.flatMap Field.nodes
  | .function _ f => [.block f.body]
  | .binary _ _ left right | .logical _ _ left right | .coalesce _ left right =>
    [.expression left, .expression right]
  | .unary _ _ operand => [.expression operand]
  | .update _ _ _ target => target.nodes
  | .assign _ target value | .compound _ _ target value => target.nodes ++ [.expression value]
  | .conditional _ test yes no => [.expression test, .expression yes, .expression no]
  | .member _ base property => .expression base :: property.nodes
  | .call _ callee args | .construct _ callee args =>
    .expression callee :: args.map Node.expression

def Stmt.children : Stmt → List Node
  | .expression _ e | .raise _ e => [.expression e]
  | .declaration _ _ declarators => declarators.flatMap Declarator.nodes
  | .function _ _ f => [.block f.body]
  | .block _ body => [.block body]
  | .branch _ condition yes no =>
    .expression condition :: .statement yes :: no.toList.map .statement
  | .whileLoop _ condition body => [.expression condition, .statement body]
  | .forLoop _ init condition update body =>
    init.toList.map .statement ++ condition.toList.map .expression ++
      update.toList.map .expression ++ [.statement body]
  | .switch _ discriminant cases => .expression discriminant :: cases.flatMap SwitchCase.nodes
  | .attempt _ body handler finalizer =>
    .block body :: (handler.toList.flatMap Handler.nodes ++ finalizer.toList.map .block)
  | .giveBack _ value => value.toList.map .expression
  | .breakLoop _ | .continueLoop _ | .empty _ => []

namespace Node

def origin : Node → Origin
  | .expression e => e.origin
  | .statement s => s.origin
  | .block b => b.origin

def children : Node → List Node
  | .expression e => e.children
  | .statement s => s.children
  | .block b => b.statements.map .statement

def start (n : Node) : Nat :=
  n.origin.tokens.start

def stop (n : Node) : Nat :=
  n.origin.tokens.stop

def function? : Node → Option Function
  | .expression (.function _ f) | .statement (.function _ _ f) => some f
  | _ => none

def HasChild (n m : Node) : Prop :=
  m ∈ n.children

end Node

/-- A function of a stream: its names are identifiers there, and its body is read as a block. -/
structure Function.ReadIn (s : Stream) (f : Function) : Prop where
  names : ∀ x ∈ f.name.toList ++ f.params, ∃ i, s.kindAt i = .identifier x.name
  body : ∃ n i j, i < j ∧ j ≤ s.last ∧ f.body.origin = Parse.originAt s i j ∧
    Grammar.block (Grammar.upTo n) s i = .ok (f.body, j)

section Order

variable {α β : Type}

/-- Items that stand one behind the other between two indices, other tokens between them. -/
inductive InOrder (S : Nat → α → Nat → Prop) : Nat → List α → Nat → Prop
  | nil {i j : Nat} : i ≤ j → InOrder S i [] j
  | cons {i a b j : Nat} {x : α} {xs : List α} :
      i ≤ a → S a x b → InOrder S b xs j → InOrder S i (x :: xs) j

inductive Consecutive (S : Nat → α → Nat → Prop) : Nat → List α → Nat → Prop
  | nil {i : Nat} : Consecutive S i [] i
  | cons {i k j : Nat} {x : α} {xs : List α} :
      S i x k → Consecutive S k xs j → Consecutive S i (x :: xs) j

variable {S : Nat → α → Nat → Prop} {i j k : Nat} {xs ys : List α}

theorem Consecutive.inOrder (h : Consecutive S i xs j) : InOrder S i xs j := by
  induction h with
  | nil => exact .nil (Nat.le_refl _)
  | cons hx _ ih => exact .cons (Nat.le_refl _) hx ih

namespace InOrder

theorem from_le (h : InOrder S j xs k) (hij : i ≤ j) : InOrder S i xs k := by
  cases h with
  | nil hjk => exact .nil (by omega)
  | cons hja hx hxs => exact .cons (by omega) hx hxs

theorem to_le (h : InOrder S i xs j) (hjk : j ≤ k) : InOrder S i xs k := by
  induction h with
  | nil hij => exact .nil (by omega)
  | cons hia hx _ ih => exact .cons hia hx (ih hjk)

theorem append (h : InOrder S i xs j) (h' : InOrder S j ys k) : InOrder S i (xs ++ ys) k := by
  induction h with
  | nil hij => exact h'.from_le hij
  | cons hia hx _ ih => exact .cons hia hx (ih h')

theorem singleton {x : α} (h : S i x j) : InOrder S i [x] j :=
  .cons (Nat.le_refl i) h (.nil (Nat.le_refl j))

theorem flatMap {T : Nat → β → Nat → Prop} {f : β → List α} {bs : List β}
    (h : InOrder T i bs j) (hf : ∀ a b x, T a x b → InOrder S a (f x) b) :
    InOrder S i (bs.flatMap f) j := by
  induction h with
  | nil hij => exact .nil hij
  | cons hia hx _ ih => exact ((hf _ _ _ hx).from_le hia).append ih

theorem map {T : Nat → β → Nat → Prop} {f : β → α} {bs : List β} (h : InOrder T i bs j)
    (hf : ∀ a b x, T a x b → S a (f x) b) : InOrder S i (bs.map f) j := by
  induction h with
  | nil hij => exact .nil hij
  | cons hia hx _ ih => exact .cons hia (hf _ _ _ hx) ih

theorem forall_mem {P : α → Prop} (h : InOrder S i xs j) (hP : ∀ a x b, S a x b → P x) :
    ∀ x ∈ xs, P x := by
  induction h with
  | nil => nofun
  | cons _ hx _ ih => exact List.forall_mem_cons.mpr ⟨hP _ _ _ hx, ih⟩

variable (hS : ∀ a x b, S a x b → a ≤ b)
include hS

theorem le (h : InOrder S i xs j) : i ≤ j := by
  induction h with
  | nil hij => exact hij
  | cons hia hx _ ih =>
    have := hS _ _ _ hx
    omega

theorem of_mem (h : InOrder S i xs j) {x : α} (hx : x ∈ xs) :
    ∃ a b, i ≤ a ∧ b ≤ j ∧ S a x b := by
  induction h with
  | nil => cases hx
  | cons hia hhead htail ih =>
    rcases List.mem_cons.mp hx with rfl | hx
    · exact ⟨_, _, hia, htail.le hS, hhead⟩
    · obtain ⟨a, b, hka, hbj, hs⟩ := ih hx
      have := hS _ _ _ hhead
      exact ⟨a, b, by omega, hbj, hs⟩

theorem pairwise (h : InOrder S i xs j) {R : α → α → Prop}
    (hR : ∀ a x b c y d, S a x b → b ≤ c → S c y d → R x y) : xs.Pairwise R := by
  induction h with
  | nil => exact .nil
  | cons _ hx htail ih =>
    refine List.pairwise_cons.mpr ⟨fun y hy => ?_, ih⟩
    obtain ⟨c, d, hbc, -, hs⟩ := htail.of_mem hS hy
    exact hR _ _ _ _ _ _ hx hbc hs

end InOrder

end Order

/-- A node stands between two indices: it has the origin of these, and its children stand in order
inside. A function that it writes down is one of the stream. -/
inductive Placed (s : Stream) : Nat → Node → Nat → Prop
  | intro {a b : Nat} {n : Node} : a < b → b ≤ s.last → n.origin = Parse.originAt s a b →
      (∀ f, n.function? = some f → f.ReadIn s) → InOrder (Placed s) a n.children b → Placed s a n b

namespace Placed

variable {s : Stream} {a b : Nat} {n : Node}

theorem plain (hlt : a < b) (hlast : b ≤ s.last) (horigin : n.origin = Parse.originAt s a b)
    (hplain : n.function? = none) (hchildren : InOrder (Placed s) a n.children b) :
    Placed s a n b := by
  refine .intro hlt hlast horigin (fun f hf => ?_) hchildren
  rw [hplain] at hf
  cases hf

theorem lt (h : Placed s a n b) : a < b := by
  cases h
  assumption

theorem le_last (h : Placed s a n b) : b ≤ s.last := by
  cases h
  assumption

theorem origin (h : Placed s a n b) : n.origin = Parse.originAt s a b := by
  cases h
  assumption

theorem function (h : Placed s a n b) {f : Function} (hf : n.function? = some f) : f.ReadIn s := by
  cases h with
  | intro _ _ _ hfunction _ => exact hfunction f hf

theorem children (h : Placed s a n b) : InOrder (Placed s) a n.children b := by
  cases h
  assumption

theorem le {a b : Nat} {n : Node} (h : Placed s a n b) : a ≤ b :=
  Nat.le_of_lt h.lt

theorem start_eq (h : Placed s a n b) : n.start = a := by
  have hlt := h.lt
  have hlast := h.le_last
  have hsize := s.size_pos
  simp only [Node.start, h.origin, Parse.originAt, Slice.clamp, Stream.last] at hlast ⊢
  omega

theorem stop_eq (h : Placed s a n b) : n.stop = b := by
  have hlast := h.le_last
  have hsize := s.size_pos
  simp only [Node.stop, h.origin, Parse.originAt, Slice.clamp, Stream.last] at hlast ⊢
  omega

theorem placed_below (h : Placed s a n b)
    {m : Node} (hm : Relation.ReflTransGen Node.HasChild n m) :
    ∃ c d, Placed s c m d := by
  induction hm with
  | refl => exact ⟨a, b, h⟩
  | tail _ hchild ih =>
    obtain ⟨c, d, hmid⟩ := ih
    obtain ⟨c', d', -, -, hplaced⟩ := hmid.children.of_mem (fun _ _ _ h => h.le) hchild
    exact ⟨c', d', hplaced⟩

end Placed

/-- Every run of a step from an index goes on from there and ends with what is said of the next
index and the result. -/
def Reads {α : Type} (s : Stream) (i : Nat) (p : Parse α) (Q : Nat → α → Prop) : Prop :=
  ∀ x j, i ≤ s.last → p s i = .ok (x, j) → i ≤ j ∧ j ≤ s.last ∧ Q j x

namespace Reads

open Parse

variable {α β : Type} {s : Stream} {i : Nat} {p q : Parse α} {f : β → Parse α}
    {Q R : Nat → α → Prop}

theorem pure {x : α} (h : Q i x) : Reads s i (pure x) Q := by
  intro y j hi hrun
  cases hrun
  exact ⟨Nat.le_refl i, hi, h⟩

theorem of_ne_ok (h : ∀ r, p s i ≠ .ok r) : Reads s i p Q :=
  fun x j _ hrun => absurd hrun (h (x, j))

theorem congr (h : Reads s i q Q) (hpq : p s i = q s i) : Reads s i p Q := by
  intro x j hi hrun
  exact h x j hi (hpq ▸ hrun)

theorem mono (h : Reads s i p Q) (hQ : ∀ j x, i ≤ j → Q j x → R j x) : Reads s i p R := by
  intro x j hi hrun
  obtain ⟨hij, hj, hq⟩ := h x j hi hrun
  exact ⟨hij, hj, hQ j x hij hq⟩

theorem and_run (h : Reads s i p Q) :
    Reads s i p fun j x => p s i = .ok (x, j) ∧ j ≤ s.last ∧ Q j x := by
  intro x j hi hrun
  obtain ⟨hij, hj, hq⟩ := h x j hi hrun
  exact ⟨hij, hj, hrun, hj, hq⟩

theorem bind {p : Parse β} {S : Nat → β → Prop} (hp : Reads s i p S)
    (hf : ∀ j y, i ≤ j → S j y → Reads s j (f y) Q) : Reads s i (p >>= f) Q := by
  intro x j hi hrun
  obtain ⟨y, k, hy, hrun⟩ := of_run_bind hrun
  obtain ⟨hik, hk, hs⟩ := hp y k hi hy
  obtain ⟨hkj, hj, hq⟩ := hf k y hik hs x j hk hrun
  exact ⟨by omega, hj, hq⟩

theorem map {p : Parse β} {c : β → α} {S : Nat → β → Prop} (hp : Reads s i p S)
    (h : ∀ j y, S j y → Q j (c y)) : Reads s i (c <$> p) Q :=
  hp.bind fun j y _ hs => pure (h j y hs)

section Steps

theorem get_bind {f : Nat → Parse α} (h : Reads s i (f i) Q) : Reads s i (get >>= f) Q :=
  h.congr (run_bind run_get)

theorem kind_bind {f : Kind → Parse α} (h : Reads s i (f (s.kindAt i)) Q) :
    Reads s i (kind >>= f) Q :=
  h.congr (run_bind run_kind)

theorem peek_bind {f : Token → Parse α} (h : Reads s i (f (s.get i)) Q) :
    Reads s i (peek >>= f) Q :=
  h.congr (run_bind run_peek)

theorem check_bind {f : Bool → Parse α} {k : Kind} (h : Reads s i (f (s.kindAt i == k)) Q) :
    Reads s i (check k >>= f) Q :=
  h.congr (run_bind (run_check k))

theorem rounds_bind {f : Nat → Parse α} (h : Reads s i (f (s.tokens.size + 1)) Q) :
    Reads s i (rounds >>= f) Q :=
  h.congr (run_bind run_rounds)

theorem originFrom_bind {f : Origin → Parse α} {start : Nat}
    (h : Reads s i (f (originAt s start i)) Q) : Reads s i (originFrom start >>= f) Q :=
  h.congr (run_bind (run_originFrom start))

variable (hs : s.Regular)
include hs

theorem lt_last (hk : s.kindAt i ≠ .endOfInput) : i < s.last := by
  exact Window.lt_last_source (W := Window.alone s hs 0) hk

theorem advance_bind {f : Token → Parse α} (hk : s.kindAt i ≠ .endOfInput)
    (h : Reads s (i + 1) (f (s.get i)) Q) : Reads s i (advance >>= f) Q := by
  intro x j _ hrun
  have hi := lt_last hs hk
  rw [run_bind (run_advance hi)] at hrun
  obtain ⟨hij, hj, hq⟩ := h x j hi hrun
  exact ⟨by omega, hj, hq⟩

theorem eat_bind {f : Bool → Parse α} {k : Kind} (hend : k ≠ .endOfInput)
    (htrue : s.kindAt i = k → Reads s (i + 1) (f true) Q) (hfalse : Reads s i (f false) Q) :
    Reads s i (eat k >>= f) Q := by
  by_cases hk : s.kindAt i = k
  · intro x j _ hrun
    have hi := lt_last hs (hk ▸ hend)
    rw [run_bind (run_eat hi hk)] at hrun
    obtain ⟨hij, hj, hq⟩ := htrue hk x j hi hrun
    exact ⟨by omega, hj, hq⟩
  · exact hfalse.congr (run_bind (run_eat_of_ne hk))

theorem expect_bind {f : Unit → Parse α} {c : Symbol} {what : Expectation}
    (h : Reads s (i + 1) (f ()) Q) : Reads s i (expect c what >>= f) Q := by
  intro x j _ hrun
  obtain ⟨_, _, hexpect, -⟩ := of_run_bind hrun
  have hk := Mirrors.kind_of_expect hexpect
  have hi : i < s.last := lt_last hs (hk ▸ nofun)
  rw [run_bind (run_expect what hi hk)] at hrun
  obtain ⟨hij, hj, hq⟩ := h x j hi hrun
  exact ⟨by omega, hj, hq⟩

theorem expectName (what : Expectation) :
    Reads s i (expectName what) fun j x => i < j ∧ ∃ a, s.kindAt a = .identifier x.name := by
  refine kind_bind ?_
  cases hk : s.kindAt i with
  | identifier name =>
    exact advance_bind hs (by rw [hk]; nofun) (pure ⟨by omega, i, hk⟩)
  | _ => exact of_ne_ok (run_fail_ne_ok _)

theorem expectPropertyName : Reads s i expectPropertyName fun j _ => i < j := by
  refine peek_bind ?_
  have hk' : s.kindAt i = (s.get i).kind := rfl
  cases hk : (s.get i).kind with
  | identifier | keyword =>
    exact advance_bind hs (by rw [hk', hk]; nofun) (pure (by omega))
  | _ => exact of_ne_ok (run_fail_ne_ok _)

theorem behind {item : Parse α} {k : Kind} (hend : k ≠ .endOfInput)
    {S : Nat → α → Nat → Prop} (h : Reads s (i + 1) item fun j x => S (i + 1) x j) :
    Reads s i (behind k item) fun j o => InOrder S i o.toList j := by
  refine eat_bind hs hend (fun _ => ?_) ?_
  · exact h.map fun j x hx => (InOrder.singleton hx).from_le (by omega)
  · exact pure (.nil (Nat.le_refl i))

end Steps

theorem unlessAt {c : Symbol} {x : α} {item : Parse α} (hx : Q i x) (h : Reads s i item Q) :
    Reads s i (unlessAt c x item) Q := by
  refine check_bind ?_
  split
  · exact pure hx
  · exact h

section Loops

variable {item : Parse α} {S : Nat → α → Nat → Prop} {m : Nat}

theorem manyUntil {stops : Kind → Bool} (hitem : ∀ k, i ≤ k → Reads s k item fun j x => S k x j) :
    Reads s i (manyUntil stops item m) fun j xs =>
      stops (s.kindAt j) = true ∧ Consecutive S i xs j := by
  induction m generalizing i with
  | zero => exact of_ne_ok (run_fail_ne_ok _)
  | succ m ih =>
    refine kind_bind ?_
    split
    next hstops => exact pure ⟨hstops, .nil⟩
    next =>
      refine (hitem i (Nat.le_refl i)).bind fun k x hik hx => ?_
      refine (ih fun k' hk' => hitem k' (by omega)).bind fun j xs _ hxs => ?_
      exact pure ⟨hxs.1, .cons hx hxs.2⟩

theorem chain {step : α → Parse (Option α)} {x : α}
    (hstep : ∀ k y, i ≤ k → Q k y → Reads s k (step y) fun j o => Q j (o.getD y)) (hx : Q i x) :
    Reads s i (chain step m x) Q := by
  induction m generalizing i x with
  | zero => exact of_ne_ok (run_fail_ne_ok _)
  | succ m ih =>
    refine (hstep i x (Nat.le_refl i) hx).bind fun k o hik ho => ?_
    cases o with
    | none => exact pure ho
    | some y => exact ih (fun k' y' hk' => hstep k' y' (by omega)) ho

variable (hs : s.Regular)
include hs

theorem separated (hitem : ∀ k, i ≤ k → Reads s k item fun j x => k < j ∧ S k x j) :
    Reads s i (separated item m) fun j xs => i < j ∧ InOrder S i xs j := by
  induction m generalizing i with
  | zero => exact of_ne_ok (run_fail_ne_ok _)
  | succ m ih =>
    refine (hitem i (Nat.le_refl i)).bind fun k x hik hx => ?_
    refine eat_bind hs nofun (fun _ => ?_) ?_
    · refine (ih fun k' hk' => hitem k' (by omega)).bind fun j xs _ hxs => ?_
      exact pure ⟨by omega, .cons (Nat.le_refl i) hx.2 (hxs.2.from_le (by omega))⟩
    · exact pure ⟨hx.1, .singleton hx.2⟩

theorem separatedBefore {close : Symbol}
    (hitem : ∀ k, i ≤ k → Reads s k item fun j x => k < j ∧ S k x j) :
    Reads s i (separatedBefore close item) fun j xs => InOrder S i xs j := by
  refine unlessAt (.nil (Nat.le_refl i)) (rounds_bind ?_)
  exact (separated hs hitem).mono fun _ _ _ h => h.2

theorem separatedUntil {close : Symbol}
    (hitem : ∀ k, i ≤ k → Reads s k item fun j x => k < j ∧ S k x j) :
    Reads s i (separatedUntil close item m) fun j xs => InOrder S i xs j := by
  induction m generalizing i with
  | zero => exact of_ne_ok (run_fail_ne_ok _)
  | succ m ih =>
    refine check_bind ?_
    split
    · exact pure (.nil (Nat.le_refl i))
    · refine (hitem i (Nat.le_refl i)).bind fun k x hik hx => ?_
      refine eat_bind hs nofun (fun _ => ?_) ?_
      · refine (ih fun k' hk' => hitem k' (by omega)).bind fun j xs _ hxs => ?_
        exact pure (.cons (Nat.le_refl i) hx.2 (hxs.from_le (by omega)))
      · exact pure (.singleton hx.2)

end Loops

end Reads

end ScriptEngine
