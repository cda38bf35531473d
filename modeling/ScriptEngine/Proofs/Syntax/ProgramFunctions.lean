import ScriptEngine.Proofs.Syntax.FunctionText
import ScriptEngine.Proofs.Syntax.Tiling
import ScriptEngine.Syntax.Functions

/-!
# The functions of a program

Every function that is written down in a program, at any depth, was read in its stream: the nodes of
the program have their places there, and a function is written down by one of them. So each of these
functions is read back from its text.
-/

namespace ScriptEngine

open Token

def Node.functions : Node → List Function
  | .expression e => e.functions
  | .statement s => s.functions
  | .block b => b.functions

section Lists

theorem Expr.functionsOf_eq (es : List Expr) : Expr.functionsOf es = es.flatMap Expr.functions := by
  induction es with
  | nil => rfl
  | cons e es ih => rw [Expr.functionsOf, ih, List.flatMap_cons]

theorem Stmt.functionsOf_eq (ss : List Stmt) : Stmt.functionsOf ss = ss.flatMap Stmt.functions := by
  induction ss with
  | nil => rfl
  | cons s ss ih => rw [Stmt.functionsOf, ih, List.flatMap_cons]

theorem Expr.functionsIfAny_eq (e : Option Expr) :
    Expr.functionsIfAny e = e.toList.flatMap Expr.functions := by
  cases e <;> simp [Expr.functionsIfAny]

theorem Stmt.functionsIfAny_eq (s : Option Stmt) :
    Stmt.functionsIfAny s = s.toList.flatMap Stmt.functions := by
  cases s <;> simp [Stmt.functionsIfAny]

theorem Field.functionsOf_eq (fields : List Field) :
    Field.functionsOf fields = (fields.flatMap Field.nodes).flatMap Node.functions := by
  induction fields with
  | nil => rfl
  | cons field fields ih =>
    obtain ⟨key, value⟩ := field
    simp [Field.functionsOf, Field.nodes, Node.functions, ih]

theorem Declarator.functionsOf_eq (ds : List Declarator) :
    Declarator.functionsOf ds = (ds.flatMap Declarator.nodes).flatMap Node.functions := by
  induction ds with
  | nil => rfl
  | cons d ds ih =>
    obtain ⟨name, init⟩ := d
    cases init <;>
      simp [Declarator.functionsOf, Declarator.nodes, Node.functions, Expr.functionsIfAny, ih]

theorem SwitchCase.functionsOf_eq (cases : List SwitchCase) :
    SwitchCase.functionsOf cases = (cases.flatMap SwitchCase.nodes).flatMap Node.functions := by
  induction cases with
  | nil => rfl
  | cons c cases ih =>
    obtain ⟨test, body⟩ := c
    simp [SwitchCase.functionsOf, SwitchCase.nodes, Node.functions, Expr.functionsIfAny_eq,
      Stmt.functionsOf_eq, ih, List.flatMap_map]

theorem Property.functions_eq (p : Property) : p.functions = p.nodes.flatMap Node.functions := by
  cases p <;> simp [Property.functions, Property.nodes, Node.functions]

theorem Target.functions_eq (t : Target) : t.functions = t.nodes.flatMap Node.functions := by
  cases t <;> simp [Target.functions, Target.nodes, Node.functions, Property.functions_eq]

theorem Block.functionsIfAny_eq (b : Option Block) :
    Block.functionsIfAny b = b.toList.flatMap Block.functions := by
  cases b <;> simp [Block.functionsIfAny]

theorem Handler.functionsIfAny_eq (h : Option Handler) :
    Handler.functionsIfAny h = (h.toList.flatMap Handler.nodes).flatMap Node.functions := by
  cases h with
  | none => rfl
  | some handler =>
    obtain ⟨param, body⟩ := handler
    simp [Handler.functionsIfAny, Handler.nodes, Node.functions]

end Lists

theorem Node.functions_of_children {n : Node} (h : n.function? = none) :
    n.functions = n.children.flatMap Node.functions := by
  cases n with
  | expression e =>
    cases e <;> simp [Node.functions, Node.children, Expr.functions, Expr.children,
      Expr.functionsOf_eq, Field.functionsOf_eq, Property.functions_eq, Target.functions_eq,
      List.flatMap_map, Node.function?] at h ⊢
  | statement s =>
    cases s <;> simp [Node.functions, Node.children, Stmt.functions, Stmt.children,
      Stmt.functionsIfAny_eq, Expr.functionsIfAny_eq, Block.functionsIfAny_eq,
      Handler.functionsIfAny_eq, Declarator.functionsOf_eq, SwitchCase.functionsOf_eq,
      List.flatMap_map, Node.function?] at h ⊢
  | block b =>
    obtain ⟨o, statements⟩ := b
    simp [Node.functions, Node.children, Block.functions, Block.statements, Stmt.functionsOf_eq,
      List.flatMap_map]

theorem Node.functions_of_function? {n : Node} {f : Function} (h : n.function? = some f) :
    n.functions = [f] ∧ n.children = [.block f.body] := by
  unfold Node.function? at h
  split at h <;> cases h <;> exact ⟨rfl, rfl⟩

/-- A function of a stream whose inner functions are functions of the stream, too. -/
inductive Function.FoundIn (s : Stream) : Function → Prop
  | intro {f : Function} : f.ReadIn s → (∀ g ∈ f.body.functions, FoundIn s g) → FoundIn s f

theorem Function.FoundIn.readIn {s : Stream} {f : Function} (h : f.FoundIn s) : f.ReadIn s := by
  cases h
  assumption

theorem Function.FoundIn.inner {s : Stream} {f : Function} (h : f.FoundIn s) :
    ∀ g ∈ f.body.functions, g.FoundIn s := by
  cases h
  assumption

theorem Placed.foundIn {s : Stream} {a b : Nat} {n : Node} (h : Placed s a n b) :
    ∀ f ∈ n.functions, f.FoundIn s := by
  -- one motive for nodes and one for their lists of children
  refine @Placed.rec s (fun _ n _ _ => ∀ f ∈ n.functions, f.FoundIn s)
    (fun _ ns _ _ => ∀ n ∈ ns, ∀ f ∈ n.functions, f.FoundIn s) ?_ ?_ ?_ a n b h
  · intro a b n _ _ _ hread _ hchildren
    cases hf : n.function? with
    | some f =>
      obtain ⟨hfunctions, hbody⟩ := Node.functions_of_function? hf
      rw [hfunctions]
      rw [hbody] at hchildren
      intro g hg
      obtain rfl := List.mem_singleton.mp hg
      exact .intro (hread g hf) (hchildren _ (List.mem_singleton_self _))
    | none =>
      rw [Node.functions_of_children hf]
      intro g hg
      obtain ⟨c, hc, hg⟩ := List.mem_flatMap.mp hg
      exact hchildren c hc g hg
  · exact fun _ n hn => nomatch hn
  · exact fun _ _ _ hn hns => List.forall_mem_cons.mpr ⟨hn, hns⟩

/-- A function that is written down somewhere in a program. -/
def Function.Parsed (f : Function) : Prop :=
  ∃ p cs ts s, scanFrom p cs = .ok ts ∧ s.tokens = ts.toArray ∧ f.FoundIn s

namespace Function.Parsed

variable {f : Function}

theorem inner (h : f.Parsed) : ∀ g ∈ f.body.functions, g.Parsed := by
  obtain ⟨p, cs, ts, s, hscan, htokens, hfound⟩ := h
  exact fun g hg => ⟨p, cs, ts, s, hscan, htokens, hfound.inner g hg⟩

theorem read_back (h : f.Parsed) (name : String) :
    ∃ program o o' f', Program.ofSource ⟨name, "(" ++ f.text ++ ")"⟩ = .ok program ∧
      program.statements = [.expression o (.function o' f')] ∧ f'.same f = true := by
  obtain ⟨p, cs, ts, s, hscan, htokens, hfound⟩ := h
  exact hfound.readIn.read_back hscan htokens name

end Function.Parsed

theorem Program.parsed_of_ofSource {source : Text.Source} {program : Block}
    (h : Program.ofSource source = .ok program) : ∀ f ∈ program.functions, f.Parsed := by
  obtain ⟨ts, -, hscan, hstream⟩ := Program.ofSource_cases h
  have htokens := Stream.tokens_ofTokens hscan source.endPosition
  obtain ⟨-, hconsecutive⟩ :=
    Program.consecutive_statements (Stream.regular_of_scanFrom hscan htokens) hstream
  intro f hf
  obtain ⟨o, statements⟩ := program
  rw [Block.functions, Stmt.functionsOf_eq] at hf
  obtain ⟨st, hst, hf⟩ := List.mem_flatMap.mp hf
  obtain ⟨a, b, -, -, hplaced⟩ := hconsecutive.inOrder.of_mem (fun _ _ _ h => h.le) hst
  exact ⟨_, _, ts, _, hscan, htokens, hplaced.foundIn f hf⟩

end ScriptEngine
