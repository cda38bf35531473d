import Mathlib.Logic.Relation
import ScriptEngine.Proofs.Evaluation.Sighting
import ScriptEngine.Proofs.Evaluation.StackDiscipline
import ScriptEngine.Syntax.Parts

/-!
# What hoisting binds

Hoisting a body binds the names of its `var` and function declarations, at any depth, in the scope
that holds `var` bindings, and nothing else. A binding is never removed, so from there on these
names have a value wherever the body runs.
-/

namespace ScriptEngine

open Eval

structure Machine.AddsHere (m m' : Machine) : Prop where
  sameStacks : m.SameStacks m'
  size : m'.scopes.size = m.scopes.size
  elsewhere : ∀ id ≠ m.current, m'.scopes.scope id = m.scopes.scope id
  parent : (m'.scopes.scope m.current).parent = (m.scopes.scope m.current).parent
  holdsVars : (m'.scopes.scope m.current).holdsVars = (m.scopes.scope m.current).holdsVars
  receiver : (m'.scopes.scope m.current).receiver = (m.scopes.scope m.current).receiver
  heap_le : m.heap.size ≤ m'.heap.size
  objects : ∀ id < m.heap.size, m'.heap.object id = m.heap.object id

/-- What hoisting does that finds `var` names and function declarations, in source order. A name is
bound to a new closure of its last function declaration, and otherwise to undefined unless it is
bound already. -/
structure Machine.Hoists (vars : List String) (functions : List (String × Function))
    (m m' : Machine) : Prop extends AddsHere m m' where
  function : ∀ name f, functions.reverse.lookup name = some f → ∃ id, m.heap.size ≤ id ∧
    id < m'.heap.size ∧ m'.scopes.getLocal? m.current name = some ⟨.object id, .var⟩ ∧
    (m'.heap.object id).kind = .closure f m.current
  var : ∀ name ∈ vars, functions.reverse.lookup name = none →
    m.scopes.getLocal? m.current name = none →
    m'.scopes.getLocal? m.current name = some ⟨.undefined, .var⟩
  other : ∀ name, functions.reverse.lookup name = none →
    (name ∈ vars → (m.scopes.getLocal? m.current name).isSome) →
    m'.scopes.getLocal? m.current name = m.scopes.getLocal? m.current name

namespace Machine

variable {vars vars' : List String} {functions functions' : List (String × Function)}
variable {m m' m'' : Machine}

theorem AddsHere.refl (m : Machine) : m.AddsHere m :=
  ⟨.refl m, rfl, fun _ _ => rfl, rfl, rfl, rfl, Nat.le_refl _, fun _ _ => rfl⟩

theorem AddsHere.trans (h : m.AddsHere m') (h' : m'.AddsHere m'') : m.AddsHere m'' := by
  have hcurrent := h.sameStacks.current
  refine ⟨h.sameStacks.trans h'.sameStacks, h'.size.trans h.size, fun id hid => ?_, ?_, ?_, ?_,
    Nat.le_trans h.heap_le h'.heap_le, fun id hid => ?_⟩
  · rw [h'.elsewhere id (by rwa [hcurrent]), h.elsewhere id hid]
  · rw [← hcurrent, h'.parent, hcurrent, h.parent]
  · rw [← hcurrent, h'.holdsVars, hcurrent, h.holdsVars]
  · rw [← hcurrent, h'.receiver, hcurrent, h.receiver]
  · rw [h'.objects id (Nat.lt_of_lt_of_le hid h.heap_le), h.objects id hid]

theorem addsHere_alloc (m : Machine) (o : Object) :
    m.AddsHere { m with heap := m.heap.alloc o } := by
  refine ⟨⟨rfl, rfl, rfl, rfl⟩, rfl, fun _ _ => rfl, rfl, rfl, rfl, ?_, fun id hid => ?_⟩
  · simp [Heap.alloc]
  · rw [Heap.object_alloc, if_neg (Nat.ne_of_lt hid)]

theorem addsHere_put (m : Machine) (name : String) (b : Binding) :
    m.AddsHere { m with scopes := m.scopes.put m.current name b } := by
  refine ⟨⟨rfl, rfl, rfl, rfl⟩, ScopeTree.size_put .., fun id hid => ?_, ScopeTree.parent_put ..,
    ScopeTree.holdsVars_put .., ?_, Nat.le_refl _, fun _ _ => rfl⟩
  · show ScopeTree.scope (m.scopes.modify m.current _) id = _
    rw [ScopeTree.scope_modify, if_neg fun h => hid h.1]
  · show (ScopeTree.scope (m.scopes.modify m.current _) m.current).receiver = _
    rw [ScopeTree.scope_modify]
    split <;> rfl

theorem Hoists.trans (h : m.Hoists vars functions m') (h' : m'.Hoists vars' functions' m'') :
    m.Hoists (vars ++ vars') (functions ++ functions') m'' := by
  have hlookup (name : String) : (functions ++ functions').reverse.lookup name =
      (functions'.reverse.lookup name).or (functions.reverse.lookup name) := by
    rw [List.reverse_append, List.lookup_append]
  have hother := h'.other
  have hvar := h'.var
  have hfunction := h'.function
  rw [h.sameStacks.current] at hother hvar hfunction
  refine ⟨h.toAddsHere.trans h'.toAddsHere, fun name f hf => ?_, fun name hname hnone hfree => ?_,
    fun name hnone hbound => ?_⟩
  · rw [hlookup] at hf
    cases hlater : functions'.reverse.lookup name with
    | some g =>
      rw [hlater] at hf
      cases hf
      obtain ⟨id, hfresh, hid⟩ := hfunction name f hlater
      exact ⟨id, Nat.le_trans h.heap_le hfresh, hid⟩
    | none =>
      rw [hlater, Option.none_or] at hf
      obtain ⟨id, hfresh, hid, hbinding, hkind⟩ := h.function name f hf
      refine ⟨id, hfresh, Nat.lt_of_lt_of_le hid h'.heap_le, ?_, ?_⟩
      · rw [hother name hlater fun _ => by rw [hbinding]; rfl, hbinding]
      · rw [h'.objects id hid, hkind]
  · rw [hlookup, Option.or_eq_none_iff] at hnone
    by_cases hfirst : name ∈ vars
    · have hbinding := h.var name hfirst hnone.2 hfree
      rw [hother name hnone.1 fun _ => by rw [hbinding]; rfl, hbinding]
    · have hsame := h.other name hnone.2 fun hmem => absurd hmem hfirst
      exact hvar name ((List.mem_append.mp hname).resolve_left hfirst) hnone.1 (hsame.trans hfree)
  · rw [hlookup, Option.or_eq_none_iff] at hnone
    have hsame := h.other name hnone.2 fun hmem => hbound (List.mem_append_left _ hmem)
    rw [hother name hnone.1 fun hmem => ?_, hsame]
    rw [hsame]
    exact hbound (List.mem_append_right _ hmem)

theorem Hoists.isSome_iff (h : m.Hoists vars functions m') (name : String) :
    (m'.scopes.getLocal? m.current name).isSome ↔
      (m.scopes.getLocal? m.current name).isSome ∨ name ∈ vars ∨ name ∈ functions.map Prod.fst := by
  have hmem : name ∈ functions.map Prod.fst ↔ (functions.reverse.lookup name).isSome := by
    simp [List.lookup_isSome_iff]
  rw [hmem]
  cases hf : functions.reverse.lookup name with
  | some f =>
    obtain ⟨id, -, -, hbinding, -⟩ := h.function name f hf
    simp [hbinding]
  | none =>
    cases hb : m.scopes.getLocal? m.current name with
    | some b => simp [h.other name hf fun _ => by rw [hb]; rfl, hb]
    | none =>
      by_cases hname : name ∈ vars
      · simp [h.var name hname hf hb, hname]
      · simp [h.other name hf fun hmem => absurd hmem hname, hb, hname]

structure AtVars (m : Machine) : Prop where
  current : m.current < m.scopes.size
  holdsVars : (m.scopes.scope m.current).holdsVars = true

theorem AddsHere.atVars (h : m.AddsHere m') (hm : m.AtVars) : m'.AtVars where
  current := by
    rw [h.sameStacks.current, h.size]
    exact hm.current
  holdsVars := by
    rw [h.sameStacks.current, h.holdsVars]
    exact hm.holdsVars

theorem AtVars.getLocal?_put (hm : m.AtVars) (name : String) (b : Binding) (n : String) :
    (m.scopes.put m.current name b).getLocal? m.current n =
      if n = name then some b else m.scopes.getLocal? m.current n := by
  rw [ScopeTree.getLocal?_put]
  simp [hm.current]

theorem AtVars.declare_var (hm : m.AtVars) (name : String) (v : Value) :
    declare name v .var m = declareLocal m.current name v .var m := by
  show declareLocal (m.scopes.varScope m.current) name v .var m = _
  rw [ScopeTree.varScope_of_holdsVars hm.holdsVars]

end Machine

namespace Eval

open Machine

def Hoisting (vars : List String) (functions : List (String × Function)) (x : Eval Unit) : Prop :=
  ∀ m m', m.AtVars → x m = .ok () m' → m.Hoists vars functions m'

variable {vars vars' : List String} {functions functions' : List (String × Function)}

theorem hoisting_pure : Hoisting [] [] (pure ()) := by
  intro m m' _ h
  cases h
  exact ⟨.refl m, nofun, nofun, fun _ _ _ => rfl⟩

theorem Hoisting.bind {x y : Eval Unit} (hx : Hoisting vars functions x)
    (hy : Hoisting vars' functions' y) :
    Hoisting (vars ++ vars') (functions ++ functions') (x >>= fun _ => y) := by
  intro m m'' hm h
  simp only [Bind.bind, EStateM.bind] at h
  cases hr : x m with
  | error e m' =>
    rw [hr] at h
    cases h
  | ok u m' =>
    rw [hr] at h
    have hfirst := hx m m' hm hr
    exact hfirst.trans (hy m' m'' (hfirst.atVars hm) h)

theorem hoisting_declareVar (name : String) : Hoisting [name] [] (declareVar name) := by
  intro m m' hm h
  simp only [declareVar, reading, bind, EStateM.bind, ScopeTree.varScopeHas,
    ScopeTree.varScope_of_holdsVars hm.holdsVars, ScopeTree.has_eq] at h
  cases hb : m.scopes.getLocal? m.current name with
  | some b =>
    rw [hb] at h
    cases h
    refine ⟨.refl m, fun _ _ hg => (by cases hg), fun n hn _ hfree => ?_, fun _ _ _ => rfl⟩
    cases List.mem_singleton.mp hn
    cases hb.symm.trans hfree
  | none =>
    rw [hb] at h
    have hdeclared : declareLocal m.current name .undefined .var m = .ok () m' := by
      rw [← hm.declare_var]
      exact h
    simp only [declareLocal, reading, bind, EStateM.bind, ScopeTree.refuses, hb] at hdeclared
    cases hdeclared
    refine ⟨addsHere_put m name _, fun _ _ hg => (by cases hg), fun n hn _ _ => ?_,
      fun n _ hbound => ?_⟩
    · exact (hm.getLocal?_put name _ n).trans (if_pos (List.mem_singleton.mp hn))
    · refine (hm.getLocal?_put name _ n).trans (if_neg ?_)
      rintro rfl
      have hsome := hbound (List.mem_singleton_self _)
      rw [hb] at hsome
      cases hsome

theorem hoisting_function (name : String) (f : Function) :
    Hoisting [] [(name, f)] (do
      let v ← newFunction f (← currentScope)
      declare name v .var) := by
  intro m m' hm h
  let prototype : Object := .bare .plain (some Proto.object.id)
  let o := (Object.bare (.closure f m.current) (some Proto.function.id)).define "prototype"
    (.object m.heap.size)
  let made : Machine := { m with heap := (m.heap.alloc prototype).alloc o }
  have hadds : m.AddsHere made :=
    (addsHere_alloc m prototype).trans (addsHere_alloc { m with heap := m.heap.alloc prototype } o)
  have hdeclared : declare name (.object (m.heap.alloc prototype).size) .var made = .ok () m' := h
  have hput (n : String) (b : Binding) := (hadds.atVars hm).getLocal?_put name b n
  rw [(hadds.atVars hm).declare_var] at hdeclared
  simp only [declareLocal, reading, bind, EStateM.bind] at hdeclared
  cases hrefuses : made.scopes.refuses made.current name .var with
  | true =>
    rw [hrefuses] at hdeclared
    cases hdeclared
  | false =>
    rw [hrefuses] at hdeclared
    cases hdeclared
    refine ⟨hadds.trans (addsHere_put made name _), fun n g hg => ?_, fun _ hn => (by cases hn),
      fun n hnone _ => ?_⟩
    · obtain ⟨rfl, rfl⟩ : n = name ∧ g = f := by
        simp only [List.reverse_singleton, List.lookup_cons, List.lookup_nil] at hg
        split at hg
        next hname => exact ⟨by simpa using hname, (Option.some.inj hg).symm⟩
        next => cases hg
      refine ⟨(m.heap.alloc prototype).size, ?_, ?_, (hput n _).trans (if_pos rfl), ?_⟩
      · simp [Heap.alloc]
      · simp [made, Heap.alloc]
      · show (((m.heap.alloc prototype).alloc o).object _).kind = _
        rw [Heap.object_alloc, if_pos rfl]
        rfl
    · refine (hput n _).trans (if_neg ?_)
      rintro rfl
      simp at hnone

theorem hoisting_declarators (ds : List Declarator) :
    Hoisting (ds.map Declarator.name) [] (Declarator.hoistAll ds) := by
  induction ds with
  | nil => exact hoisting_pure
  | cons d ds ih =>
    obtain ⟨name, init⟩ := d
    exact (hoisting_declareVar name.name).bind ih

end Eval

def Stmt.HoistedBy (parts : List Stmt) (x : Eval Unit) : Prop :=
  Hoisting (Stmt.varNames parts) (Stmt.functionDeclarations parts) x

namespace Stmt

variable {parts parts' : List Stmt}

theorem partsOf_append (ss ss' : List Stmt) : partsOf (ss ++ ss') = partsOf ss ++ partsOf ss' := by
  induction ss with
  | nil => rfl
  | cons s ss ih =>
    rw [List.cons_append, partsOf, partsOf, ih, List.append_assoc]

theorem mem_names_of_hoisted {s : Stmt} (hs : s ∈ parts) {name : String}
    (hname : name ∈ s.hoistedNames) :
    name ∈ varNames parts ∨ name ∈ (functionDeclarations parts).map Prod.fst := by
  match s with
  | .declaration _ .var ds => exact .inl (List.mem_flatMap.mpr ⟨_, hs, hname⟩)
  | .function _ f k =>
    have hpair : (f.name, k) ∈ functionDeclarations parts :=
      List.mem_flatMap.mpr ⟨_, hs, List.mem_singleton_self _⟩
    cases List.mem_singleton.mp hname
    exact .inr (List.mem_map_of_mem hpair)

theorem hoistedBy_nil : HoistedBy [] (pure ()) :=
  hoisting_pure

theorem HoistedBy.bind {x y : Eval Unit} (hx : HoistedBy parts x) (hy : HoistedBy parts' y) :
    HoistedBy (parts ++ parts') (x >>= fun _ => y) := by
  unfold HoistedBy varNames functionDeclarations
  rw [List.flatMap_append, List.flatMap_append]
  exact Hoisting.bind hx hy

end Stmt

mutual

theorem Stmt.hoistedBy_hoist (s : Stmt) : Stmt.HoistedBy (s :: s.inner) s.hoist := by
  match s with
  | .function _ name f => exact hoisting_function name.name f
  | .declaration _ kind ds =>
    cases kind with
    | var =>
      simpa [Stmt.HoistedBy, Stmt.varNames, Stmt.functionDeclarations, Stmt.inner, Stmt.hoist] using
        hoisting_declarators ds
    | let_ | const => exact hoisting_pure
  | .block _ (.mk _ statements) => exact Stmt.hoistedBy_hoistAll statements
  | .branch _ _ yes no =>
    exact (Stmt.hoistedBy_hoist yes).bind (Stmt.hoistedBy_hoistIfAny no)
  | .whileLoop _ _ body => exact Stmt.hoistedBy_hoist body
  | .forLoop _ init _ _ body =>
    exact (Stmt.hoistedBy_hoistIfAny init).bind (Stmt.hoistedBy_hoist body)
  | .switch _ _ cases => exact SwitchCase.hoistedBy_hoistAll cases
  | .attempt _ (.mk _ statements) handler finalizer =>
    have hparts := (Stmt.hoistedBy_hoistAll statements).bind
      ((Handler.hoistedBy_hoistIfAny handler).bind (Block.hoistedBy_hoistIfAny finalizer))
    rw [← List.append_assoc] at hparts
    exact hparts
  | .expression .. | .breakLoop _ | .continueLoop _ | .raise .. | .giveBack .. | .empty _ =>
    exact hoisting_pure
termination_by structural s

theorem Stmt.hoistedBy_hoistAll (ss : List Stmt) :
    Stmt.HoistedBy (Stmt.partsOf ss) (Stmt.hoistAll ss) := by
  match ss with
  | [] => exact Stmt.hoistedBy_nil
  | s :: ss => exact (Stmt.hoistedBy_hoist s).bind (Stmt.hoistedBy_hoistAll ss)
termination_by structural ss

theorem Stmt.hoistedBy_hoistIfAny (s : Option Stmt) :
    Stmt.HoistedBy (Stmt.partsIfAny s) (Stmt.hoistIfAny s) := by
  match s with
  | none => exact Stmt.hoistedBy_nil
  | some s => exact Stmt.hoistedBy_hoist s
termination_by structural s

theorem SwitchCase.hoistedBy_hoistAll (cases : List SwitchCase) :
    Stmt.HoistedBy (SwitchCase.partsOf cases) (SwitchCase.hoistAll cases) := by
  match cases with
  | [] => exact Stmt.hoistedBy_nil
  | .mk _ body :: cases =>
    exact (Stmt.hoistedBy_hoistAll body).bind (SwitchCase.hoistedBy_hoistAll cases)
termination_by structural cases

theorem Handler.hoistedBy_hoistIfAny (handler : Option Handler) :
    Stmt.HoistedBy (Handler.partsIfAny handler) (Handler.hoistIfAny handler) := by
  match handler with
  | none => exact Stmt.hoistedBy_nil
  | some (.mk _ (.mk _ statements)) => exact Stmt.hoistedBy_hoistAll statements
termination_by structural handler

theorem Block.hoistedBy_hoistIfAny (b : Option Block) :
    Stmt.HoistedBy (Block.partsIfAny b) (Block.hoistIfAny b) := by
  match b with
  | none => exact Stmt.hoistedBy_nil
  | some (.mk _ statements) => exact Stmt.hoistedBy_hoistAll statements
termination_by structural b

end

namespace Machine

variable {m m' : Machine} {id : ScopeId} {name : String}

theorem Change.bound {P : Function → Prop} (h : m.Change P m')
    (hname : (m.scopes.getLocal? id name).isSome) : (m'.scopes.getLocal? id name).isSome := by
  have hput (i : ScopeId) (n : String) (b : Binding) :
      ((m.scopes.put i n b).getLocal? id name).isSome := by
    rw [ScopeTree.getLocal?_put]
    split
    · rfl
    · exact hname
  obtain ⟨b, hb⟩ := Option.isSome_iff_exists.mp hname
  cases h with
  | alloc | define | write | append | dropLast => exact hname
  | addScope s =>
    show ((m.scopes.add s).getLocal? id name).isSome
    rwa [ScopeTree.getLocal?_add s (ScopeTree.lt_size_of_getLocal? hb)]
  | assign holder n v kind => exact hput ..
  | declare i n v kind => exact hput ..
  | overwrite source target n new =>
    show ((m.scopes.overwriteLocal target n new.value).getLocal? id name).isSome
    rw [ScopeTree.overwriteLocal_eq]
    split
    · exact hput ..
    · exact hname

theorem Step.bound (h : m.Step m') (hname : (m.scopes.getLocal? id name).isSome) :
    (m'.scopes.getLocal? id name).isSome := by
  cases h with
  | change h => exact h.bound hname
  | scope | join | joined | call | returned | rest => exact hname

/-- The machines that runs can come through from a given one. -/
def Leads : Machine → Machine → Prop :=
  Relation.ReflTransGen Step

theorem Leads.bound (h : m.Leads m') (hname : (m.scopes.getLocal? id name).isSome) :
    (m'.scopes.getLocal? id name).isSome := by
  induction h with
  | refl => exact hname
  | tail _ hstep ih => exact hstep.bound ih

theorem eval_identifier_of_bound (hinside : m.scopes.Inside id m.current)
    (hname : (m.scopes.getLocal? id name).isSome) (f : Invoke) (o : Origin) :
    ∃ v, (Expr.identifier o name).eval f m = .ok v m := by
  obtain ⟨v, hv⟩ := Option.isSome_iff_exists.mp (hinside.lookup?_isSome hname)
  refine ⟨v, ?_⟩
  simp only [Expr.eval, lookup, reading, bind, EStateM.bind, ScopeTree.get, hv]
  rfl

end Machine

/-- Hoisting binds what a body declares, and nothing else. From then on, whatever is done and on
whatever machine, the names that it declares can be read everywhere inside the scope, and while the
body runs, all its calls are made on such machines. No such name is looked up in vain: the body, and
all closures made inside the scope that are called, run as they do if such a look-up does something
else altogether. -/
theorem hoisted_names_are_bound {statements : List Stmt} {m m' : Machine} (hm : m.AtVars)
    (h : Stmt.hoistAll statements m = .ok () m') :
    let vars := Stmt.varNames (Stmt.partsOf statements)
    let functions := Stmt.functionDeclarations (Stmt.partsOf statements)
    m.Hoists vars functions m' ∧
    (∀ name, (m'.scopes.getLocal? m.current name).isSome ↔
      (m.scopes.getLocal? m.current name).isSome ∨ name ∈ vars ∨ name ∈ functions.map Prod.fst) ∧
    (∀ m'', m'.Leads m'' → m''.scopes.Inside m.current m''.current → ∀ name,
      name ∈ vars ∨ name ∈ functions.map Prod.fst → ∀ f o, ∃ v,
        (Expr.identifier o name).eval f m'' = .ok v m'') ∧
    (∀ fuel rounds,
      (∀ {α : Type} (a : Activity α) m'', m'.Leads m'' →
        m'.Leads (final (a.run (invoke fuel) rounds m''))) ∧
      ∀ watch : Eval Value → Eval Value, (∀ x m'', m'.Leads m'' → watch x m'' = x m'') →
        Stmt.runAll (monitored watch fuel) rounds none statements m' =
          Stmt.runAll (invoke fuel) rounds none statements m') ∧
    (m.WellScoped → ∀ look, Ways.SeesBound (vars ++ functions.map Prod.fst) look →
      ∀ choice, Ways.Choice.Within m.current (.looking look) choice → ∀ fuel rounds,
        Stmt.runAllWith (.looking look) (invokeWith choice fuel) rounds none statements m' =
          Stmt.runAll (invoke fuel) rounds none statements m') := by
  intro vars functions
  have hhoists : m.Hoists vars functions m' := Stmt.hoistedBy_hoistAll statements m m' hm h
  have hbound := hhoists.isSome_iff
  refine ⟨hhoists, hbound, fun m'' hleads hinside name hname => ?_,
    fun fuel rounds => ⟨fun a m'' hleads => ?_, fun watch hwatch => ?_⟩,
    fun hwell look hlook choice hchoice fuel rounds => ?_⟩
  · have hsome := hleads.bound ((hbound name).mpr (.inr hname))
    exact Machine.eval_identifier_of_bound hinside hsome
  · have hidle (x : Eval Value) (m'' : Machine) (_ : m'.Leads m'') : id x m'' = x m'' := rfl
    exact (meets_activity .tail hidle fuel rounds a m'' hleads).2.1
  · exact (meets_activity .tail hwatch fuel rounds (.statements statements) m' .refl).1
  · have hsealed := Seal.sealed_nothing hwell hm.current
    have hhoist : Seal.Sighted m.current [] True (Stmt.hoistAll statements) _ :=
      .hoistAll statements
    have hkept := hhoist.kept hsealed
    rw [h] at hkept
    have hsees : m'.Sees m.current (vars ++ functions.map Prod.fst) True := by
      refine ⟨fun name hname => (hbound name).mpr (.inr (List.mem_append.mp hname)), fun _ => ?_⟩
      rw [hhoists.sameStacks.current]
      exact .here
    have hrun := Seal.Sighted.runAll hlook (Seal.Sighted.invoke hlook hchoice fuel)
      (.inr ⟨rfl, trivial⟩) rounds none statements
    exact hrun.same m' hkept.sealed hsees

/-- A `var` in a branch and two declarations of a function, read before any of them. The body runs
in the same way if a look-up of them in vain is not answered. -/
theorem hoisted_names_are_bound_early_read :
    let read : Stmt := .expression default (.identifier default "x")
    let declared : Stmt := .declaration default .var [.mk ⟨"x", default⟩ none]
    let f : Function := .mk none [] (.mk default [])
    let g : Function := .mk none [⟨"y", default⟩] (.mk default [])
    let statements : List Stmt := [read, .branch default (.bool default false) declared none,
      .function default ⟨"f", default⟩ f, .function default ⟨"f", default⟩ g]
    let m : Machine := ⟨#[], #[Scope.root], 0, [], [], none⟩
    let look (name : String) : Eval Value := fun m'' =>
      if name ∈ ["x", "f"] ∧ m''.scopes.lookup? m''.current name = none then .error .outOfFuel m''
      else lookup name m''
    ∃ m', Stmt.hoistAll statements m = .ok () m' ∧ m.Hoists ["x"] [("f", f), ("f", g)] m' ∧
      (∃ v, (Expr.identifier default "x").eval (invoke 1) m' = .ok v m') ∧
      Stmt.runAllWith (.looking look) (invokeWith (fun _ _ => .own) 1) 1 none statements m' =
        Stmt.runAll (invoke 1) 1 none statements m' := by
  intro read declared f g statements m look
  have hm : m.AtVars := ⟨Nat.zero_lt_one, rfl⟩
  have hwell : m.WellScoped := by
    refine ⟨fun id parent hparent => ?_, Nat.zero_lt_one, fun id f home hkind => ?_⟩
    · cases id <;> cases hparent
    · cases hkind
  have hlook : Ways.SeesBound (["x"] ++ ["f", "f"]) look := by
    intro name m'' hname
    refine if_neg fun ⟨hmem, hnone⟩ => ?_
    have hsome := hname (by simpa using hmem)
    rw [hnone] at hsome
    cases hsome
  obtain ⟨m', h⟩ : ∃ m', Stmt.hoistAll statements m = .ok () m' := ⟨_, rfl⟩
  obtain ⟨hhoists, -, hreads, -, hruns⟩ := hoisted_names_are_bound hm h
  have hcurrent : m'.current = 0 := hhoists.sameStacks.current
  refine ⟨m', h, hhoists, hreads m' .refl ?_ "x" (.inl (List.mem_singleton_self _)) _ _,
    hruns hwell look hlook _ (fun _ _ => .inl rfl) 1 1⟩
  rw [hcurrent]
  exact .here

end ScriptEngine
