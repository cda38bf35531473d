import ScriptEngine.Proofs.Evaluation.Hoisting
import ScriptEngine.Proofs.Evaluation.Sealing

/-!
# What a `var` declarator writes

A `var` is bound by hoisting in the scope that holds `var` bindings, and keeps its kind there. Its
declarator binds nothing more. An initial value is assigned like any other: to the innermost binding
of the name, which is the one of the `var` only if no scope in between binds the name.
-/

namespace ScriptEngine

open Eval

namespace ScopeTree

variable {t : ScopeTree} {s id i : ScopeId} {p : Scope → Bool}

theorem Inside.of_climb (h : t.Inside s id) (hp : p (t.scope s) = true) {n : Nat}
    (hfound : t.climb p n id = some i) : t.Inside s i := by
  induction h generalizing n with
  | here =>
    cases n with
    | zero => cases hfound
    | succ n =>
      rw [climb, if_pos hp] at hfound
      cases hfound
      exact .here
  | under hparent hlt h ih =>
    cases n with
    | zero => cases hfound
    | succ n =>
      simp only [climb, hparent] at hfound
      split at hfound
      next =>
        cases hfound
        exact .under hparent hlt h
      next => exact ih hfound

theorem assignee_of_bound (ht : t.Ordered) (hinside : t.Inside s id) {name : String}
    (hname : (t.getLocal? s name).isSome) {holder : ScopeId} {kind : BindingKind}
    (h : t.assignee id name = .ok (holder, kind)) :
    t.holder? id name = some holder ∧ t.Inside s holder ∧ t.Inside holder id ∧
      ∃ b, t.getLocal? holder name = some b ∧ b.kind = kind ∧ kind ≠ .const := by
  have hhas : (t.scope s).has name = true := by rw [has_eq, hname]
  obtain ⟨found, hfound⟩ := Option.isSome_iff_exists.mp
    (hinside.climb_isSome (p := (·.has name)) hhas (Nat.lt_succ_self id))
  have hbound := of_climb_eq_some hfound
  rw [has_eq] at hbound
  obtain ⟨b, hb⟩ := Option.isSome_iff_exists.mp hbound
  have hholder : t.holder? id name = some found := hfound
  simp only [assignee, hholder, hb] at h
  split at h
  next => cases h
  next hkind =>
    cases h
    exact ⟨hholder, hinside.of_climb hhas hfound, inside_of_climb ht hfound, b, hb, rfl,
      by simpa using hkind⟩

end ScopeTree

namespace Machine

variable {m m' : Machine} {id : ScopeId} {name : String} {b : Binding}

theorem Change.kind {P : Function → Prop} (h : m.Change P m')
    (hb : m.scopes.getLocal? id name = some b) :
    ∃ b', m'.scopes.getLocal? id name = some b' ∧ b'.kind = b.kind := by
  have hretains {t : ScopeTree} (ht : m.scopes.Retains t) :
      ∃ b', t.getLocal? id name = some b' ∧ b'.kind = b.kind := by
    obtain ⟨b', hb', hkind, -⟩ := ht.binding id name b hb
    exact ⟨b', hb', hkind⟩
  cases h with
  | alloc | define | write | append | dropLast => exact ⟨b, hb, rfl⟩
  | addScope s => exact hretains (ScopeTree.retains_add s)
  | assign holder n v kind hassignee => exact hretains (ScopeTree.retains_assign hassignee v)
  | declare i n v kind hfree => exact hretains (ScopeTree.retains_declare hfree v)
  | overwrite source target n new =>
    show ∃ b', (m.scopes.overwriteLocal target n new.value).getLocal? id name = some b' ∧ _
    rw [ScopeTree.overwriteLocal_eq]
    split
    next old hold =>
      rw [ScopeTree.getLocal?_put]
      split
      next hput =>
        obtain ⟨rfl, rfl, -⟩ := hput
        cases hold.symm.trans hb
        exact ⟨_, rfl, rfl⟩
      next => exact ⟨b, hb, rfl⟩
    next => exact ⟨b, hb, rfl⟩

theorem Step.kind (h : m.Step m') (hb : m.scopes.getLocal? id name = some b) :
    ∃ b', m'.scopes.getLocal? id name = some b' ∧ b'.kind = b.kind := by
  cases h with
  | change h => exact h.kind hb
  | scope | join | joined | call | returned | rest => exact ⟨b, hb, rfl⟩

theorem Leads.kind (h : m.Leads m') (hb : m.scopes.getLocal? id name = some b) :
    ∃ b', m'.scopes.getLocal? id name = some b' ∧ b'.kind = b.kind := by
  induction h with
  | refl => exact ⟨b, hb, rfl⟩
  | tail _ hstep ih =>
    obtain ⟨b₁, hb₁, hkind₁⟩ := ih
    obtain ⟨b₂, hb₂, hkind₂⟩ := hstep.kind hb₁
    exact ⟨b₂, hb₂, hkind₂.trans hkind₁⟩

theorem Hoists.kind_of_var {vars : List String} {functions : List (String × Function)}
    (h : m.Hoists vars functions m') (hname : name ∈ vars) :
    ∃ b, m'.scopes.getLocal? m.current name = some b ∧
      (b.kind = .var ∨ m.scopes.getLocal? m.current name = some b) := by
  cases hf : functions.reverse.lookup name with
  | some f =>
    obtain ⟨id, -, -, hbinding, -⟩ := h.function name f hf
    exact ⟨_, hbinding, .inl rfl⟩
  | none =>
    cases hb : m.scopes.getLocal? m.current name with
    | none => exact ⟨_, h.var name hname hf hb, .inl rfl⟩
    | some b => exact ⟨b, (h.other name hf fun _ => by rw [hb]; rfl).trans hb, .inr rfl⟩

end Machine

/-- How a `var` declarator with an initial value ends, from a machine in a scope inside one that
binds the name: the value is put into the innermost binding, and nothing else is done. -/
structure Machine.Initialises (scope : ScopeId) (name : String) (v : Value) (m m' : Machine)
    (holder : ScopeId) (b : Binding) : Prop where
  holder? : m.scopes.holder? m.current name = some holder
  inside : m.scopes.Inside scope holder
  encloses : m.scopes.Inside holder m.current
  binding : m.scopes.getLocal? holder name = some b
  kind : b.kind ≠ .const
  put : m' = { m with scopes := m.scopes.put holder name ⟨v, b.kind⟩ }

namespace Machine.Initialises

variable {scope holder : ScopeId} {name : String} {v : Value} {m m' : Machine} {b : Binding}

theorem getLocal?_of_free (h : m.Initialises scope name v m' holder b)
    (hfree : ∀ id, m.scopes.Inside scope id → m.scopes.Inside id m.current → id ≠ scope →
      m.scopes.getLocal? id name = none) :
    m'.scopes.getLocal? scope name = some ⟨v, b.kind⟩ := by
  have hholder : holder = scope := by
    refine Decidable.byContradiction fun hne => ?_
    cases (hfree holder h.inside h.encloses hne).symm.trans h.binding
  subst hholder
  rw [h.put, ScopeTree.getLocal?_put, if_pos ⟨rfl, rfl, ScopeTree.lt_size_of_getLocal? h.binding⟩]

theorem getLocal?_of_ne (h : m.Initialises scope name v m' holder b) (hne : holder ≠ scope) :
    m'.scopes.getLocal? scope name = m.scopes.getLocal? scope name := by
  rw [h.put, ScopeTree.getLocal?_put, if_neg fun hput => hne hput.1.symm]

end Machine.Initialises

namespace Eval

theorem run_var_of_bound {m : Machine} {name : Ident} (f : Invoke)
    (hname : m.scopes.varScopeHas m.current name.name = true) :
    (Declarator.mk name none).run f .var m = .ok () m := by
  simp only [Declarator.run, declareVar, reading, bind, EStateM.bind, hname]
  rfl

theorem of_assign {m m' : Machine} {name : String} {v : Value} (h : assign name v m = .ok () m') :
    ∃ holder kind, m.scopes.assignee m.current name = .ok (holder, kind) ∧
      m' = { m with scopes := m.scopes.put holder name ⟨v, kind⟩ } := by
  simp only [assign, reading, bind, EStateM.bind] at h
  cases hassignee : m.scopes.assignee m.current name with
  | ok target =>
    rw [hassignee] at h
    cases h
    exact ⟨_, _, rfl, rfl⟩
  | error e =>
    rw [hassignee] at h
    cases h

theorem run_var_cases {m m' : Machine} {name : Ident} {e : Expr} {f : Invoke}
    (h : (Declarator.mk name (some e)).run f .var m = .ok () m') :
    ∃ v m₁, e.eval f m = .ok v m₁ ∧ assign name.name v m₁ = .ok () m' := by
  simp only [Declarator.run, bind, EStateM.bind] at h
  cases he : e.eval f m with
  | ok v m₁ =>
    rw [he] at h
    exact ⟨v, m₁, rfl, h⟩
  | error failure m₁ =>
    rw [he] at h
    cases h

theorem eval_keeps_scopes {m m' : Machine} (hm : m.WellScoped) {e : Expr} {fuel : Nat} {v : Value}
    (h : e.eval (invoke fuel) m = .ok v m') :
    m'.WellScoped ∧ m'.current = m.current ∧ m.scopes.Grows m'.scopes ∧
      m.scopes.Retains m'.scopes := by
  have hretains := retains_activity (fun _ => false) fuel 0 (.expression e) m
  have hkept : (Seal.nothing m.current).Kept m
      (final ((Activity.expression e).run (monitored (stopping fun _ => false) fuel) 0 m)) :=
    Seal.keeps_activity (fun _ => false) fuel 0 (.expression e) m
      (Seal.sealed_nothing hm hm.current) (Seal.admitted_nothing m.current _ _ _ m)
  have hfinal : final ((Activity.expression e).run (monitored (stopping fun _ => false) fuel) 0 m) =
      m' := by
    rw [monitored_never]
    exact congrArg final h
  rw [hfinal] at hretains hkept
  exact ⟨hkept.sealed.wellScoped, hkept.current, hkept.grows, hretains.scopes⟩

end Eval

/-- A `var` declarator of a hoisted body that completes: the scope that holds the `var` bindings of
the body binds the name, as a `var` unless the name was bound there otherwise before. Without an
initial value nothing is done. An initial value goes to the innermost binding of the name: to the
`var` itself if no scope in between binds the name, and else the `var` keeps the value that it has.
-/
theorem var_declarators_write_innermost_binding {statements : List Stmt} {m m' : Machine}
    (hm : m.AtVars) (h : Stmt.hoistAll statements m = .ok () m') {name : Ident}
    (hname : name.name ∈ Stmt.varNames (Stmt.partsOf statements)) {before after : Machine}
    (hleads : m'.Leads before) (hwell : before.WellScoped)
    (hscope : before.scopes.varScope before.current = m.current) {init : Option Expr} {fuel : Nat}
    (hrun : (Declarator.mk name init).run (invoke fuel) .var before = .ok () after) :
    (∃ b, after.scopes.getLocal? m.current name.name = some b ∧ (b.kind = .var ∨
      ∃ old, m.scopes.getLocal? m.current name.name = some old ∧ b.kind = old.kind)) ∧
    (init = none → after = before) ∧
    ∀ e, init = some e → ∃ v evaluated holder b, e.eval (invoke fuel) before = .ok v evaluated ∧
      evaluated.Initialises m.current name.name v after holder b ∧
      ((∀ id, evaluated.scopes.Inside m.current id → evaluated.scopes.Inside id evaluated.current →
          id ≠ m.current → evaluated.scopes.getLocal? id name.name = none) →
        after.scopes.getLocal? m.current name.name = some ⟨v, b.kind⟩) ∧
      (holder ≠ m.current → after.scopes.getLocal? m.current name.name =
        evaluated.scopes.getLocal? m.current name.name) := by
  obtain ⟨hoisted, hhoisted, hkind⟩ :=
    (Stmt.hoistedBy_hoistAll statements m m' hm h).kind_of_var hname
  -- the kind is followed from the hoisting over the run, the initial value and the write
  obtain ⟨b, hb, hbkind⟩ := hleads.kind hhoisted
  have hold : hoisted.kind = .var ∨
      ∃ old, m.scopes.getLocal? m.current name.name = some old ∧ hoisted.kind = old.kind :=
    hkind.imp_right fun hsame => ⟨hoisted, hsame, rfl⟩
  cases init with
  | none =>
    have hhas : before.scopes.varScopeHas before.current name.name = true := by
      rw [ScopeTree.varScopeHas, hscope, ScopeTree.has_eq, hb]
      rfl
    cases (run_var_of_bound (invoke fuel) hhas).symm.trans hrun
    rw [← hbkind] at hold
    refine ⟨⟨b, hb, hold⟩, fun _ => rfl, fun e he => ?_⟩
    cases he
  | some e =>
    obtain ⟨v, evaluated, heval, hassign⟩ := run_var_cases hrun
    obtain ⟨hwell', hcurrent, hgrows, hretains⟩ := eval_keeps_scopes hwell heval
    obtain ⟨b₁, hb₁, hkind₁, -⟩ := hretains.binding m.current name.name b hb
    have hinside : evaluated.scopes.Inside m.current evaluated.current := by
      rw [hcurrent, hgrows.inside_iff hwell.current, ← hscope]
      exact ScopeTree.inside_varScope hwell.ordered before.current
    obtain ⟨holder, kind, hassignee, hput⟩ := of_assign hassign
    obtain ⟨hholder, hbelow, habove, b₂, hb₂, rfl, hconst⟩ :=
      ScopeTree.assignee_of_bound hwell'.ordered hinside (by rw [hb₁]; rfl) hassignee
    have hinit : evaluated.Initialises m.current name.name v after holder b₂ :=
      ⟨hholder, hbelow, habove, hb₂, hconst, hput⟩
    obtain ⟨b₃, hb₃, hkind₃, -⟩ :=
      (ScopeTree.retains_assign hassignee v).binding m.current name.name b₁ hb₁
    rw [← hbkind, ← hkind₁, ← hkind₃] at hold
    subst hput
    refine ⟨⟨b₃, hb₃, hold⟩, fun he => ?_, fun e' he => ?_⟩
    · cases he
    cases he
    exact ⟨v, evaluated, holder, b₂, heval, hinit, hinit.getLocal?_of_free, hinit.getLocal?_of_ne⟩

/-- A `var` with an initial value, in a block that has bound its name. -/
theorem var_declarators_write_innermost_binding_shadowed :
    let x : Ident := ⟨"x", default⟩
    let d : Declarator := .mk x (some (.bool default true))
    let hoisted : Scope := Scope.root.bind "x" ⟨.undefined, .var⟩
    let block : Scope := (Scope.block 0).bind "x" ⟨.bool false, .let_⟩
    let before : Machine := ⟨#[], #[hoisted, block], 1, [], [], none⟩
    ∃ after, d.run (invoke 1) .var before = .ok () after ∧
      ∃ b, after.scopes.getLocal? 0 "x" = some b ∧ b.kind = .var := by
  intro x d hoisted block before
  let m : Machine := ⟨#[], #[Scope.root], 0, [], [], none⟩
  let m' : Machine := ⟨#[], #[hoisted], 0, [], [], none⟩
  have hm : m.AtVars := ⟨Nat.zero_lt_one, rfl⟩
  have h : Stmt.hoistAll [.declaration default .var [d]] m = .ok () m' := rfl
  have hleads : m'.Leads before :=
    .tail (.tail (.tail .refl (.change (.addScope (.block 0)))) (.scope 1))
      (.change (.declare 1 "x" (.bool false) .let_ rfl))
  have hwell : before.WellScoped := by
    refine ⟨fun id parent hparent => ?_, by decide, fun id f home hkind => ?_⟩
    · match id, hparent with
      | 1, hparent =>
        cases hparent
        decide
    · cases hkind
  have hassign : ∃ after, assign "x" (.bool true) before = .ok () after := ⟨_, rfl⟩
  obtain ⟨after, hrun⟩ : ∃ after, d.run (invoke 1) .var before = .ok () after := by
    simpa only [d, Declarator.run, Expr.eval, pure_bind] using hassign
  obtain ⟨⟨b, hb, hkind⟩, -⟩ := var_declarators_write_innermost_binding hm h
    (List.mem_singleton_self _) hleads hwell rfl hrun
  refine ⟨after, hrun, b, hb, hkind.resolve_right ?_⟩
  rintro ⟨old, hold, -⟩
  cases hold

/-- In a block that binds the name, the initial value of a `var` goes to the binding of the block;
and a `var` after an earlier program has bound the name with `let` leaves that binding in its place.
-/
theorem var_initialiser_misses_var_scope :
    let x : Ident := ⟨"x", default⟩
    let declares (kind : BindingKind) (value : Bool) : Stmt :=
      .declaration default kind [.mk x (some (.bool default value))]
    let m : Machine := ⟨#[], #[Scope.root], 0, [], [], none⟩
    let inner : Block := .mk default [declares .var true]
    let outer : Block := .mk default [declares .let_ false, .block default inner]
    (∃ m', runProgram 1 (.mk default [.block default outer]) m = .ok .undefined m' ∧
      m'.scopes.getLocal? 0 "x" = some ⟨.undefined, .var⟩ ∧
      m'.scopes.getLocal? 1 "x" = some ⟨.bool true, .let_⟩) ∧
    ∃ m₁ m₂, runProgram 1 (.mk default [declares .let_ false]) m = .ok .undefined m₁ ∧
      runProgram 1 (.mk default [.declaration default .var [.mk x none]]) m₁ = .ok .undefined m₂ ∧
      m₂.scopes.getLocal? 0 "x" = some ⟨.bool false, .let_⟩ :=
  ⟨⟨_, rfl, rfl, rfl⟩, _, _, rfl, rfl, rfl⟩

end ScriptEngine
