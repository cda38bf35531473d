import ScriptEngine.Proofs.Syntax.Levels
import ScriptEngine.Proofs.Syntax.Window
import ScriptEngine.Syntax.Outline
import ScriptEngine.Syntax.Same

/-!
# Where nodes come from

Every expression of a tree was read by some reader between two indices, and its origin tells which.
The readers that group to the left have more to say: the left operand of a node is what the reader
had after some of its rounds, so these count as readers too. A part of a tree is kept when its copy
is the same and all nodes in it have a known reader.
-/

namespace ScriptEngine

open Token Outline

namespace Parse

/-- The first rounds of a chain. -/
def links {α : Type} (step : α → Parse (Option α)) : Nat → α → Parse α
  | 0, x => pure x
  | n + 1, x => do
    match ← step (← links step n x) with
    | some y => return y
    | none => fail .tooDeep

end Parse

namespace Grammar

open Parse

def headAt (g : Grammar) (r : Nat) : Parse Expr :=
  if r = 18 then memberHead g else readerAt g (r + 1)

def partAt (g : Grammar) (r m : Nat) : Parse Expr := do
  let start ← get
  links (stepAt g r start) m (← headAt g r)

/-- An expression is read between two indices: by a reader, or by the first rounds of one. -/
def ReadsExpr (s : Stream) (i : Nat) (e : Expr) (j : Nat) : Prop :=
  ∃ n r, 1 ≤ r ∧ r ≤ 19 ∧
    (readerAt (upTo n) r s i = .ok (e, j) ∨ isChain r = true ∧
      ∃ m, partAt (upTo n) r m s i = .ok (e, j))

def ReadsStmt (s : Stream) (i : Nat) (st : Stmt) (j : Nat) : Prop :=
  ∃ n, readStatement (upTo n) s i = .ok (st, j)

end Grammar

open Grammar

def Outline.Entry.ReadIn (s : Stream) (n : Entry) : Prop :=
  match n.subject with
  | .expression e => ∃ i j, i < j ∧ j ≤ s.last ∧ e.origin.tokens = Slice.clamp s.tokens i j ∧
      ReadsExpr s i e j
  | .statement st => ∃ i j, i < j ∧ j ≤ s.last ∧ st.origin.tokens = Slice.clamp s.tokens i j ∧
      ReadsStmt s i st j
  | _ => True

/-- The copy of a part of a tree is the same, and its nodes are read in a stream. -/
def Kept (s : Stream) (same : Bool) (nodes : List Entry) : Prop :=
  same = true ∧ ∀ n ∈ nodes, n.ReadIn s

namespace Kept

variable {s : Stream}

theorem nil : Kept s true [] := ⟨rfl, nofun⟩

theorem append {a b : Bool} {ns ms : List Entry} (ha : Kept s a ns) (hb : Kept s b ms) :
    Kept s (a && b) (ns ++ ms) := by
  refine ⟨by rw [ha.1, hb.1]; rfl, fun n hn => ?_⟩
  exact (List.mem_append.mp hn).elim (ha.2 n) (hb.2 n)

theorem cons {a : Bool} {n : Entry} {ns : List Entry} (hn : n.ReadIn s) (h : Kept s a ns) :
    Kept s a (n :: ns) :=
  ⟨h.1, List.forall_mem_cons.mpr ⟨hn, h.2⟩⟩

theorem of_cons {a : Bool} {n : Entry} {ns : List Entry} (h : Kept s a (n :: ns)) : Kept s a ns :=
  ⟨h.1, fun m hm => h.2 m (List.mem_cons_of_mem n hm)⟩

theorem ident {a a' : Ident} (h : a'.name = a.name) : Kept s (a'.same a) [Entry.ofIdent a] := by
  refine cons trivial ⟨?_, nofun⟩
  simp [Ident.same, h]

theorem list {α : Type} {same : α → α → Bool} {nodes : α → List Entry}
    {sameAll : List α → List α → Bool} {nodesAll : List α → List Entry}
    (hnil : sameAll [] [] = true) (hcons : ∀ a as b bs,
      sameAll (a :: as) (b :: bs) = (same a b && sameAll as bs))
    (hnodes : nodesAll [] = []) (hmore : ∀ a as, nodesAll (a :: as) = nodes a ++ nodesAll as)
    {as as' : List α} (h : List.Forall₂ (fun a a' => Kept s (same a' a) (nodes a)) as as') :
    Kept s (sameAll as' as) (nodesAll as) := by
  induction h with
  | nil =>
    rw [hnil, hnodes]
    exact nil
  | cons ha _ ih =>
    rw [hcons, hmore]
    exact ha.append ih

end Kept

def Expr.Kept (s : Stream) (e e' : Expr) : Prop :=
  ScriptEngine.Kept s (e'.same e) (e.entry :: e.descendants)

def Stmt.Kept (s : Stream) (st st' : Stmt) : Prop :=
  ScriptEngine.Kept s (st'.same st) (st.entry :: st.descendants)

def Field.Kept (s : Stream) (f f' : Field) : Prop :=
  ScriptEngine.Kept s (Field.sameList [f'] [f]) (Field.outlines [f])

def Declarator.Kept (s : Stream) (d d' : Declarator) : Prop :=
  ScriptEngine.Kept s (Declarator.sameList [d'] [d]) (Declarator.outlines [d])

def SwitchCase.Kept (s : Stream) (c c' : SwitchCase) : Prop :=
  ScriptEngine.Kept s (SwitchCase.sameList [c'] [c]) (SwitchCase.outlines [c])

def Block.Kept (s : Stream) (b b' : Block) : Prop :=
  ScriptEngine.Kept s (b'.same b) b.outline

namespace Kept

variable {s : Stream}

theorem idents {as as' : List Ident} (h : List.Forall₂ (fun a a' => a'.name = a.name) as as') :
    Kept s (Ident.sameList as' as) (as.map Entry.ofIdent) := by
  have hitems : List.Forall₂ (fun a a' => Kept s (a'.same a) [Entry.ofIdent a]) as as' :=
    h.imp fun _ _ => ident
  exact list rfl (fun _ _ _ _ => rfl) rfl (fun _ _ => rfl) hitems

theorem exprs {es es' : List Expr} (h : List.Forall₂ (Expr.Kept s) es es') :
    Kept s (Expr.sameList es' es) (Expr.outlines es) :=
  list rfl (fun _ _ _ _ => rfl) rfl (fun _ _ => rfl) h

theorem stmts {ss ss' : List Stmt} (h : List.Forall₂ (Stmt.Kept s) ss ss') :
    Kept s (Stmt.sameList ss' ss) (Stmt.outlines ss) :=
  list rfl (fun _ _ _ _ => rfl) rfl (fun _ _ => rfl) h

theorem fields {fs fs' : List Field} (h : List.Forall₂ (Field.Kept s) fs fs') :
    Kept s (Field.sameList fs' fs) (Field.outlines fs) := by
  refine list rfl ?_ rfl ?_ h
  · rintro ⟨k, x⟩ fs ⟨k', y⟩ gs
    simp [Field.sameList]
  · rintro ⟨k, x⟩ fs
    simp [Field.outlines]

theorem declarators {ds ds' : List Declarator} (h : List.Forall₂ (Declarator.Kept s) ds ds') :
    Kept s (Declarator.sameList ds' ds) (Declarator.outlines ds) := by
  refine list rfl ?_ rfl ?_ h
  · rintro ⟨n, x⟩ ds ⟨n', y⟩ es
    simp [Declarator.sameList]
  · rintro ⟨n, x⟩ ds
    simp [Declarator.outlines]

theorem switchCases {cs cs' : List SwitchCase} (h : List.Forall₂ (SwitchCase.Kept s) cs cs') :
    Kept s (SwitchCase.sameList cs' cs) (SwitchCase.outlines cs) := by
  refine list rfl ?_ rfl ?_ h
  · rintro ⟨t, b⟩ cs ⟨t', b'⟩ ds
    simp [SwitchCase.sameList]
  · rintro ⟨t, b⟩ cs
    simp [SwitchCase.outlines]

theorem target {e e' : Expr} {t : Target} (h : Kept s (e'.same e) e.descendants)
    (ht : e.target? = some t) :
    ∃ t', e'.target? = some t' ∧ Kept s (t'.same t) t.outline := by
  cases e with
  | identifier o name =>
    cases ht
    cases e' with
    | identifier o' name' => exact ⟨_, rfl, cons trivial h⟩
    | _ => exact absurd h.1 nofun
  | member o object property =>
    cases ht
    cases e' with
    | member o' object' property' => exact ⟨_, rfl, h⟩
    | _ => exact absurd h.1 nofun
  | _ => exact absurd ht nofun

end Kept

structure Window.Finds (W : Window) (x y : Nat) (e e' : Expr) : Prop where
  lt : x < y
  origin : e.origin = Parse.originAt W.source (W.base + x) (W.base + y)
  below : ScriptEngine.Kept W.source (e'.same e) e.descendants

theorem Window.Finds.kept {W : Window} {x y : Nat} {e e' : Expr} (h : W.Finds x y e e')
    (hlast : W.base + y ≤ W.source.last)
    (hread : ReadsExpr W.source (W.base + x) e (W.base + y)) : e.Kept W.source e' := by
  refine Kept.cons ⟨W.base + x, W.base + y, ?_, hlast, ?_, hread⟩ h.below
  · have := h.lt
    omega
  · rw [h.origin]
    rfl

end ScriptEngine
