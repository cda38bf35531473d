import ScriptEngine.Proofs.Evaluation.Bindings
import ScriptEngine.Proofs.Evaluation.Congruence

/-!
# Contracts of runs

A contract is a condition on machines, a relation between the machines before and after a run, and a
condition on failures. It is checked on single changes of the machine and on the three places that
set something and put it back; from that every run that the evaluator makes satisfies it, as soon as
the calls it makes do. That bindings are retained is part of every contract. Runs are compared in
pairs: `Meets` says that the second run agrees with the first up to a relocation, and that the first
satisfies the contract. A contract may excuse the second run from agreeing, once the scopes have
come to a certain point. With loops about, it has to allow for running out of fuel.
-/

namespace ScriptEngine

/-- One change that a run makes to the heap or to the scopes. New closures have functions that
satisfy `P`, and no run makes a native function. -/
inductive Machine.Change (P : Function → Prop) (m : Machine) : Machine → Prop where
  | alloc (o : Object) (hf : ∀ f s, o.kind = .closure f s → P f)
      (hn : ∀ n f, o.kind ≠ .native n f) : Change P m { m with heap := m.heap.alloc o }
  | define (id : ObjectId) (key : String) (v : Value) :
      Change P m { m with heap := m.heap.define id key v }
  | write (id : ObjectId) (slot : Object.Slot) (key : String) (v : Value)
      (hslot : (m.heap.object id).slot? key v = some slot) :
      Change P m { m with heap := m.heap.write id slot key v }
  | append (id : ObjectId) (vs : List Value) :
      Change P m { m with heap := m.heap.modify id (·.append vs) }
  | dropLast (id : ObjectId) : Change P m { m with heap := m.heap.modify id (·.dropLast) }
  | addScope (s : Scope) : Change P m { m with scopes := m.scopes.add s }
  | assign (holder : ScopeId) (name : String) (v : Value) (kind : BindingKind)
      (hassignee : m.scopes.assignee m.current name = .ok (holder, kind)) :
      Change P m { m with scopes := m.scopes.put holder name ⟨v, kind⟩ }
  | declare (id : ScopeId) (name : String) (v : Value) (kind : BindingKind)
      (hfree : m.scopes.refuses id name kind = false) :
      Change P m { m with scopes := m.scopes.put id name ⟨v, kind⟩ }
  | overwrite (source target : ScopeId) (name : String) (b : Binding)
      (hsource : m.scopes.getLocal? source name = some b) :
      Change P m { m with scopes := m.scopes.overwriteLocal target name b.value }

namespace Eval

def closing (ended : Except Failure Completion) : Completion → Eval Completion
  | .normal _ => resume ended
  | jump => return jump

section Finalizing

variable {x last : Eval Completion} {m m' : Machine}

theorem finalizing_of_ok {c : Completion} (h : x m = .ok c m') :
    finalizing x (some last) m = (last >>= closing (.ok c)) m' := by
  simp only [finalizing, outcome, bind, EStateM.bind, h]
  rfl

theorem finalizing_of_error {e : Failure} (he : e ≠ .outOfFuel) (h : x m = .error e m') :
    finalizing x (some last) m = (last >>= closing (.error e)) m' := by
  simp only [finalizing, outcome, bind, EStateM.bind, h]
  cases e with
  | outOfFuel => exact absurd rfl he
  | thrown | internal => rfl

theorem finalizing_of_outOfFuel (h : x m = .error .outOfFuel m') :
    finalizing x (some last) m = .error .outOfFuel m' := by
  simp only [finalizing, outcome, bind, EStateM.bind, h]
  rfl

end Finalizing

structure Contract (P : Function → Prop) where
  holds : Machine → Prop
  keeps : Machine → Machine → Prop
  fails : Failure → Prop
  refl (m : Machine) : keeps m m
  trans {a b c : Machine} : keeps a b → keeps b c → keeps a c
  change {m m' : Machine} : holds m → m.Change P m' → m.Retains m' → holds m' ∧ keeps m m'
  enter {m : Machine} (id : ScopeId) : holds m → holds { m with current := id }
  leave {m m' : Machine} (id : ScopeId) : holds m → holds m' → keeps { m with current := id } m' →
    holds { m' with current := m.current } ∧ keeps m { m' with current := m.current }
  join {m : Machine} (id : ObjectId) : holds m → holds { m with joining := id :: m.joining }
  joined {m m' : Machine} (id : ObjectId) : holds m → holds m' →
    keeps { m with joining := id :: m.joining } m' →
    holds { m' with joining := m'.joining.tail } ∧ keeps m { m' with joining := m'.joining.tail }
  call {m : Machine} (frame : Frame) : holds m → atCallLimit m = false →
    holds { m with frames := frame :: m.frames }
  returned {m m' : Machine} (frame : Frame) : holds m → holds m' →
    keeps { m with frames := frame :: m.frames } m' →
    holds { m' with frames := m'.frames.tail } ∧ keeps m { m' with frames := m'.frames.tail }
  thrown {m : Machine} (v : Value) : holds m → fails (.thrown ⟨v, m.frames⟩)
  /-- The second run need not agree with a first that has come from scopes to scopes. -/
  excuses : ScopeTree → ScopeTree → Prop
  excuses_retains {t₁ t₂ t₃ t₄ : ScopeTree} : t₁.Retains t₂ → excuses t₂ t₃ → t₃.Retains t₄ →
    excuses t₁ t₄

namespace Contract

variable {P : Function → Prop} (C : Contract P)

def Ends (m : Machine) {α : Type} (r : EStateM.Result Failure Machine α) : Prop :=
  C.holds (final r) ∧ C.keeps m (final r) ∧ ∀ e m', r = .error e m' → C.fails e

/-- Two runs that start on `m` and on the relocated machine agree, unless that is excused, and the
first one ends as the contract says, with all bindings. -/
structure MeetsAt (ρ : Relocation) (m : Machine) {α : Type} (x y : Eval α) : Prop where
  agree : y (m.relocate ρ) = relocated ρ (x m) ∨ C.excuses m.scopes (final (x m)).scopes
  ends : C.Ends m (x m)
  retains : m.Retains (final (x m))

def Meets (ρ : Relocation) {α : Type} (x y : Eval α) : Prop :=
  ∀ m, C.holds m → C.MeetsAt ρ m x y

variable {C} {ρ : Relocation}

theorem ends_ok {m m' : Machine} {α : Type} (a : α) (hm' : C.holds m') (hk : C.keeps m m') :
    C.Ends m (.ok a m') :=
  ⟨hm', hk, fun _ _ he => nomatch he⟩

theorem ends_error {m m' : Machine} {α : Type} {e : Failure} (hm' : C.holds m')
    (hk : C.keeps m m') (he : C.fails e) :
    C.Ends m (.error e m' : EStateM.Result Failure Machine α) :=
  ⟨hm', hk, fun _ _ h => by cases h; exact he⟩

theorem Ends.of_keeps {m m' : Machine} {α : Type} {r : EStateM.Result Failure Machine α}
    (hk : C.keeps m m') (hr : C.Ends m' r) : C.Ends m r :=
  ⟨hr.1, C.trans hk hr.2.1, hr.2.2⟩

theorem MeetsAt.eq (hexcuses : ∀ t t', ¬C.excuses t t') {m : Machine} {α : Type} {x y : Eval α}
    (h : C.MeetsAt .stay m x y) : y m = x m := by
  simpa [hexcuses] using h.agree

theorem MeetsAt.congr_right {m : Machine} {α : Type} {x y y' : Eval α} (h : C.MeetsAt .stay m x y)
    (hy : y' m = y m) : C.MeetsAt .stay m x y' := by
  refine ⟨?_, h.ends, h.retains⟩
  have hagree := h.agree
  rw [Machine.relocate_stay] at hagree ⊢
  rwa [hy]

theorem meets_pure {α : Type} (a : α) : C.Meets ρ (pure a) (pure a) :=
  fun m hm => ⟨.inl rfl, ends_ok a hm (C.refl m), .refl m⟩

theorem meets_throw {α : Type} {e : Failure} (he : C.fails e) :
    C.Meets ρ (throw e : Eval α) (throw (e.relocate ρ)) :=
  fun m hm => ⟨.inl rfl, ends_error hm (C.refl m) he, .refl m⟩

theorem MeetsAt.cases {m : Machine} {α : Type} {x y : Eval α} (h : C.MeetsAt ρ m x y) :
    (∃ a m', x m = .ok a m' ∧
      (y (m.relocate ρ) = .ok a (m'.relocate ρ) ∨ C.excuses m.scopes m'.scopes) ∧ C.holds m' ∧
      C.keeps m m' ∧ m.Retains m') ∨
    ∃ e m', x m = .error e m' ∧
      (y (m.relocate ρ) = .error (e.relocate ρ) (m'.relocate ρ) ∨ C.excuses m.scopes m'.scopes) ∧
      C.holds m' ∧ C.keeps m m' ∧ m.Retains m' ∧ C.fails e := by
  obtain ⟨hxy, hend, hretains⟩ := h
  cases hr : x m with
  | ok a m' =>
    rw [hr] at hxy hend hretains
    exact .inl ⟨a, m', rfl, hxy, hend.1, hend.2.1, hretains⟩
  | error e m' =>
    rw [hr] at hxy hend hretains
    exact .inr ⟨e, m', rfl, hxy, hend.1, hend.2.1, hretains, hend.2.2 e m' rfl⟩

theorem MeetsAt.of_later {m m' : Machine} {α : Type} {x y x' y' : Eval α} (hk : C.keeps m m')
    (hretains : m.Retains m') (h : C.MeetsAt ρ m' x' y') (hx : x m = x' m')
    (hy : y (m.relocate ρ) = y' (m'.relocate ρ) ∨ C.excuses m.scopes m'.scopes) :
    C.MeetsAt ρ m x y where
  agree := by
    rw [hx]
    rcases hy with hy | hy
    · rw [hy]
      exact h.agree.imp_right fun hlater =>
        C.excuses_retains hretains.scopes hlater (.refl _)
    · exact .inr (C.excuses_retains (.refl _) hy h.retains.scopes)
  ends := by
    rw [hx]
    exact h.ends.of_keeps hk
  retains := by
    rw [hx]
    exact hretains.trans h.retains

theorem MeetsAt.bind {m : Machine} {α β : Type} {x y : Eval α} {f g : α → Eval β}
    (hx : C.MeetsAt ρ m x y)
    (hf : ∀ a m', x m = .ok a m' → C.holds m' → C.keeps m m' → m.Retains m' →
      C.MeetsAt ρ m' (f a) (g a)) :
    C.MeetsAt ρ m (x >>= f) (y >>= g) := by
  obtain ⟨a, m', hr, hr', hm', hk, hretains⟩ | ⟨e, m', hr, hr', hm', hk, hretains, hfail⟩ :=
    hx.cases
  · refine .of_later hk hretains (hf a m' hr hm' hk hretains) ?_ ?_
    · simp only [Bind.bind, EStateM.bind, hr]
    · refine hr'.imp_left fun hr' => ?_
      simp only [Bind.bind, EStateM.bind, hr']
  · refine .of_later hk hretains (meets_throw hfail m' hm') ?_ ?_
    · simp only [Bind.bind, EStateM.bind, hr]
      rfl
    · refine hr'.imp_left fun hr' => ?_
      simp only [Bind.bind, EStateM.bind, hr']
      rfl

theorem MeetsAt.of_reading {m : Machine} {α β γ : Type} {r : Machine → α} {r' : Machine → β}
    {f : α → Eval γ} {g : β → Eval γ} (h : C.MeetsAt ρ m (f (r m)) (g (r' (m.relocate ρ)))) :
    C.MeetsAt ρ m (reading r >>= f) (reading r' >>= g) :=
  ⟨h.agree, h.ends, h.retains⟩

theorem MeetsAt.of_reading_stay {m : Machine} {α β : Type} {r : Machine → α} {f g : α → Eval β}
    (h : C.MeetsAt .stay m (f (r m)) (g (r m))) :
    C.MeetsAt .stay m (reading r >>= f) (reading r >>= g) :=
  .of_reading (by rwa [Machine.relocate_stay])

theorem meets_bind {α β : Type} {x y : Eval α} {f g : α → Eval β} (hx : C.Meets ρ x y)
    (hf : ∀ a, C.Meets ρ (f a) (g a)) : C.Meets ρ (x >>= f) (y >>= g) :=
  fun m hm => (hx m hm).bind fun a m' _ hm' _ _ => hf a m' hm'

theorem MeetsAt.of_change {m m' : Machine} {α : Type} {x y : Eval α} {a : α} (hm : C.holds m)
    (hc : m.Change P m') (hretains : m.Retains m') (hx : x m = .ok a m')
    (hy : y (m.relocate ρ) = .ok a (m'.relocate ρ)) : C.MeetsAt ρ m x y := by
  obtain ⟨hm', hk⟩ := C.change hm hc hretains
  refine ⟨?_, ?_, ?_⟩
  · rw [hx, hy, relocated_ok]
    exact .inl rfl
  · rw [hx]
    exact ends_ok a hm' hk
  · rw [hx]
    exact hretains

theorem meets_throwValue {α : Type} (v : Value) :
    C.Meets ρ (throwValue v : Eval α) (throwValue v) :=
  fun m hm => ⟨.inl rfl, ends_error hm (C.refl m) (C.thrown v hm), .refl m⟩

theorem meets_alloc (o : Object) (hf : ∀ f s, o.kind = .closure f s → P f)
    (hn : ∀ n f, o.kind ≠ .native n f) : C.Meets ρ (alloc o) (alloc (o.relocate ρ)) := by
  refine fun m hm => .of_change hm (.alloc o hf hn) ⟨rfl, .refl _⟩ rfl ?_
  simp [alloc, Machine.relocate, Heap.relocate_alloc]

theorem meets_throwNamed {α : Type} (c : ErrorClass) (message : String) :
    C.Meets ρ (throwNamed c message : Eval α) (throwNamed c message) := by
  refine meets_bind (meets_bind (meets_alloc _ ?_ ?_) fun _ => meets_pure _) fun v =>
    meets_throwValue v
  · simp [Object.bare, Object.define]
  · simp [Object.bare, Object.define]

theorem meets_modify (id : ObjectId) {f : Object → Object}
    (hf : ∀ o, (f o).relocate ρ = f (o.relocate ρ)) {m : Machine} (hm : C.holds m)
    (hc : m.Change P { m with heap := m.heap.modify id f }) :
    C.MeetsAt ρ m (modify fun m => { m with heap := m.heap.modify id f })
      (modify fun m => { m with heap := m.heap.modify id f }) := by
  refine .of_change hm hc ⟨rfl, .refl _⟩ rfl ?_
  show EStateM.Result.ok _ { m.relocate ρ with heap := (m.heap.relocate ρ).modify id f } = _
  rw [← Heap.relocate_modify ρ m.heap hf id]
  rfl

theorem meets_writeProperty (id : ObjectId) (key : String) (v : Value) :
    C.Meets ρ (writeProperty id key v) (writeProperty id key v) := by
  refine fun m hm => .of_reading ?_
  rw [Machine.heap_relocate, Heap.object_relocate, Object.slot?_relocate]
  cases hslot : (m.heap.object id).slot? key v with
  | some slot =>
    exact meets_modify id (fun o => o.relocate_write ρ slot key v) hm (.write id slot key v hslot)
  | none => exact meets_throwNamed _ _ m hm

theorem meets_assign (name : String) (v : Value) : C.Meets ρ (assign name v) (assign name v) := by
  refine fun m hm => .of_reading ?_
  rw [Machine.scopes_relocate, Machine.current_relocate]
  cases hassignee : m.scopes.assignee m.current name with
  | ok found =>
    obtain ⟨holder, kind⟩ := found
    exact .of_change hm (.assign holder name v kind hassignee)
      ⟨rfl, ScopeTree.retains_assign hassignee v⟩ rfl rfl
  | error e => exact meets_throwNamed _ _ m hm

theorem meets_declareLocal (id : ScopeId) (name : String) (v : Value) (kind : BindingKind) :
    C.Meets ρ (declareLocal id name v kind) (declareLocal id name v kind) := by
  refine fun m hm => .of_reading ?_
  rw [Machine.scopes_relocate]
  cases hfree : m.scopes.refuses id name kind with
  | true => exact meets_throwNamed _ _ m hm
  | false =>
    exact .of_change hm (.declare id name v kind hfree)
      ⟨rfl, ScopeTree.retains_declare hfree v⟩ rfl rfl

theorem MeetsAt.always {m₁ : Machine} {α : Type} {x y : Eval α} (hx : C.MeetsAt ρ m₁ x y)
    (m : Machine) (hscopes : m₁.scopes = m.scopes) (after : Machine → Machine)
    (hcomm : ∀ m', after (m'.relocate ρ) = (after m').relocate ρ)
    (hafter : ∀ m', C.holds m' → C.keeps m₁ m' → m₁.Retains m' →
      (C.holds (after m') ∧ C.keeps m (after m')) ∧
        (after m').current = m.current ∧ m'.scopes.Retains (after m').scopes) :
    (always y after (m₁.relocate ρ) = relocated ρ (always x after m₁) ∨
      C.excuses m.scopes (final (always x after m₁)).scopes) ∧
      C.Ends m (always x after m₁) ∧ m.Retains (final (always x after m₁)) := by
  have hexcused {m' : Machine} (hlast : m'.scopes.Retains (after m').scopes)
      (h : C.excuses m₁.scopes m'.scopes) : C.excuses m.scopes (after m').scopes :=
    C.excuses_retains (.refl _) (hscopes ▸ h) hlast
  obtain ⟨a, m', hr, hr', hm', hk, hretains⟩ | ⟨e, m', hr, hr', hm', hk, hretains, hfail⟩ :=
    hx.cases
  · obtain ⟨⟨hlast, hk'⟩, hcurrent, hkept⟩ := hafter m' hm' hk hretains
    simp only [Eval.always, hr]
    refine ⟨hr'.imp (fun hr' => ?_) (hexcused hkept), ends_ok a hlast hk', hcurrent, ?_⟩
    · simp only [hr', hcomm, relocated_ok]
    · exact (hscopes ▸ hretains.scopes).trans hkept
  · obtain ⟨⟨hlast, hk'⟩, hcurrent, hkept⟩ := hafter m' hm' hk hretains
    simp only [Eval.always, hr]
    refine ⟨hr'.imp (fun hr' => ?_) (hexcused hkept), ends_error hlast hk' hfail, hcurrent, ?_⟩
    · simp only [hr', hcomm, relocated_error]
    · exact (hscopes ▸ hretains.scopes).trans hkept

theorem MeetsAt.inScope {m : Machine} (hm : C.holds m) {α : Type} (id : ScopeId) {x y : Eval α}
    (hx : C.MeetsAt ρ { m with current := id } x y) :
    C.MeetsAt ρ m (inScope id x) (inScope id y) := by
  obtain ⟨hagree, hend, hretains⟩ := hx.always m rfl (fun m' => { m' with current := m.current })
    (fun _ => rfl) fun _ hm' hk _ => ⟨C.leave id hm hm' hk, rfl, .refl _⟩
  exact ⟨hagree, hend, hretains⟩

theorem meets_inScope {α : Type} (id : ScopeId) {x y : Eval α} (hx : C.Meets ρ x y) :
    C.Meets ρ (inScope id x) (inScope id y) :=
  fun _ hm => .inScope hm id (hx _ (C.enter id hm))

theorem meets_whileJoining {α : Type} (id : ObjectId) {x y : Eval α} (hx : C.Meets ρ x y) :
    C.Meets ρ (Native.whileJoining id x) (Native.whileJoining id y) := by
  intro m hm
  obtain ⟨hagree, hend, hretains⟩ := (hx _ (C.join id hm)).always m rfl
    (fun m' => { m' with joining := m'.joining.tail }) (fun _ => rfl) fun _ hm' hk hr =>
      ⟨C.joined id hm hm' hk, hr.current, .refl _⟩
  exact ⟨hagree, hend, hretains⟩

theorem copyBack_relocate (source target : ScopeId) (names : List String) (m : Machine) :
    copyBack source target names (m.relocate ρ) = (copyBack source target names m).relocate ρ := by
  induction names generalizing m with
  | nil => rfl
  | cons name names ih =>
    simp only [copyBack, List.foldl_cons, Machine.scopes_relocate]
    cases m.scopes.getLocal? source name with
    | none => exact ih m
    | some b => exact ih { m with scopes := m.scopes.overwriteLocal target name b.value }

theorem meets_copyBack {source target : ScopeId} {names : List String} {m : Machine}
    (hm : C.holds m) (h : ∀ name ∈ names, m.scopes.Agree target source name) :
    (C.holds (copyBack source target names m) ∧ C.keeps m (copyBack source target names m)) ∧
      m.Retains (copyBack source target names m) := by
  induction names generalizing m with
  | nil => exact ⟨⟨hm, C.refl m⟩, .refl m⟩
  | cons name names ih =>
    rw [List.forall_mem_cons] at h
    obtain ⟨b, hsource, hscopes⟩ := h.1.retains_overwrite
    have hretains : m.Retains { m with scopes := m.scopes.overwriteLocal target name b.value } :=
      ⟨rfl, hscopes⟩
    obtain ⟨hm', hk⟩ := C.change hm (.overwrite source target name b hsource) hretains
    obtain ⟨⟨hlast, hk'⟩, hretains'⟩ := ih hm' fun n hn => (h.2 n hn).retains hscopes
    simp only [copyBack, List.foldl_cons, hsource]
    exact ⟨⟨hlast, C.trans hk hk'⟩, hretains.trans hretains'⟩

theorem meets_catching {x y : Eval Completion} {f g : Value → Eval Completion} (hx : C.Meets ρ x y)
    (hf : ∀ v, C.Meets ρ (f v) (g v)) :
    C.Meets ρ (catching x (some f)) (catching y (some g)) := by
  intro m hm
  obtain ⟨c, m', hr, hr', hm', hk, hretains⟩ | ⟨e, m', hr, hr', hm', hk, hretains, hfail⟩ :=
    (hx m hm).cases
  · refine .of_later hk hretains (meets_pure c m' hm') ?_ ?_
    · simp only [catching, outcome, bind, EStateM.bind, hr]
      rfl
    · refine hr'.imp_left fun hr' => ?_
      simp only [catching, outcome, bind, EStateM.bind, hr']
      rfl
  · cases e with
    | thrown t =>
      refine .of_later hk hretains (hf t.value m' hm') ?_ ?_
      · simp only [catching, outcome, bind, EStateM.bind, hr]
      · refine hr'.imp_left fun hr' => ?_
        simp only [catching, outcome, bind, EStateM.bind, hr', Failure.relocate]
    | internal | outOfFuel =>
      refine .of_later hk hretains (meets_throw hfail m' hm') ?_ ?_
      · simp only [catching, outcome, bind, EStateM.bind, hr]
        rfl
      · refine hr'.imp_left fun hr' => ?_
        simp only [catching, outcome, bind, EStateM.bind, hr']
        rfl

theorem meets_closing {ended ended' : Except Failure Completion}
    (hended : C.Meets ρ (resume ended) (resume ended')) (c : Completion) :
    C.Meets ρ (closing ended c) (closing ended' c) := by
  cases c with
  | normal => exact hended
  | leave | skip | giveBack => exact meets_pure _

theorem meets_finalizing {x y last last' : Eval Completion} (hx : C.Meets ρ x y)
    (hlast : C.Meets ρ last last') :
    C.Meets ρ (finalizing x (some last)) (finalizing y (some last')) := by
  intro m hm
  obtain ⟨c, m', hr, hr', hm', hk, hretains⟩ | ⟨e, m', hr, hr', hm', hk, hretains, hfail⟩ :=
    (hx m hm).cases
  · have hresume : C.Meets ρ (resume (.ok c)) (resume (.ok c)) := meets_pure c
    exact .of_later hk hretains (meets_bind hlast (meets_closing hresume) m' hm')
      (finalizing_of_ok hr) (hr'.imp_left finalizing_of_ok)
  · have hresume : C.Meets ρ (resume (.error e) : Eval Completion)
        (resume (.error (e.relocate ρ))) := meets_throw hfail
    cases e with
    | outOfFuel =>
      exact .of_later hk hretains (meets_throw hfail m' hm') (finalizing_of_outOfFuel hr)
        (hr'.imp_left finalizing_of_outOfFuel)
    | thrown | internal =>
      exact .of_later hk hretains (meets_bind hlast (meets_closing hresume) m' hm')
        (finalizing_of_error nofun hr) (hr'.imp_left (finalizing_of_error nofun))

theorem MeetsAt.entering {m : Machine} (hm : C.holds m) (frame : Frame) {x y : Eval Value}
    (hx : atCallLimit m = false → C.MeetsAt ρ { m with frames := frame :: m.frames } x y) :
    C.MeetsAt ρ m (entering frame x) (entering (frame.relocate ρ) y) := by
  refine .of_reading ?_
  rw [Machine.atCallLimit_relocate]
  cases hlimit : atCallLimit m with
  | true => exact meets_throwNamed _ _ m hm
  | false =>
    obtain ⟨hagree, hend, hretains⟩ := (hx hlimit).always m rfl
      (fun m' => { m' with frames := m'.frames.tail })
      (fun _ => by simp [Machine.relocate, List.map_tail]) fun _ hm' hk hr =>
        ⟨C.returned frame hm hm' hk, hr.current, .refl _⟩
    exact ⟨hagree, hend, hretains⟩

theorem meets_addScope (s : Scope) : C.Meets ρ (addScope s) (addScope s) :=
  fun _ hm => .of_change hm (.addScope s) ⟨rfl, ScopeTree.retains_add s⟩ rfl rfl

theorem congruence : Congruence P ρ (fun x y => C.Meets ρ x y) where
  pure := meets_pure
  bind := meets_bind
  ofReading hk m hm := .of_reading (hk m m hm)
  throwValue := meets_throwValue
  alloc o hf hn := meets_alloc o (fun f s hkind => absurd hkind (hf f s)) hn
  allocClosure hkind hf := by
    refine meets_alloc _ (fun f s hkind' => ?_) (by simp [hkind])
    cases hkind.symm.trans hkind'
    exact hf
  define id key v _ hm := meets_modify id (fun o => o.relocate_define ρ key v) hm (.define id key v)
  writeProperty := meets_writeProperty
  append id vs _ hm := meets_modify id (fun o => o.relocate_append ρ vs) hm (.append id vs)
  dropLast id _ hm := meets_modify id (fun o => o.relocate_dropLast ρ) hm (.dropLast id)
  addScope := meets_addScope
  assign := meets_assign
  declareLocal := meets_declareLocal
  inScope id _ _ hx := meets_inScope id hx
  whileJoining id _ _ hx := meets_whileJoining id hx
  catching := meets_catching
  finalizing := meets_finalizing

section Rounds

def MeetsBinding (C : Contract P) (ρ : Relocation) (names : List String) {α : Type}
    (x y : Eval α) : Prop :=
  ∀ m, C.holds m → m.Binds names → C.MeetsAt ρ m x y

theorem sequential_binding (hfuel : C.fails .outOfFuel) (names : List String) :
    Sequential (fun x y => C.MeetsBinding ρ names x y) where
  pure a m hm _ := meets_pure a m hm
  bind hx hf m hm hnames :=
    (hx m hm hnames).bind fun a m' _ hm' _ hr => hf a m' hm' (hnames.retains hr)
  outOfFuel m hm _ := meets_throw hfuel m hm

/-- The loop variables of a round are retained, although their values are copied back over them:
both scopes have kept the constants among them. -/
theorem meets_iteration {names : List String} {body body' : Eval Completion}
    (hbody : C.Meets ρ body body') :
    C.MeetsBinding ρ names (iteration names body) (iteration names body') := by
  intro m hm hnames
  refine .of_reading ?_
  refine (meets_addScope _ m hm).bind fun scope m₁ hadded hm₁ _ hretains₁ => ?_
  cases hadded
  refine (congruence.copyInto m.current m.scopes.size names _ hm₁).bind
    fun u m₂ hcopied hm₂ _ _ => ?_
  have hagree : ∀ name ∈ names, m₂.scopes.Agree m.current m.scopes.size name := by
    intro name hname
    obtain ⟨b, hb⟩ := Option.isSome_iff_exists.mp (hnames name hname)
    have hlt := ScopeTree.lt_size_of_getLocal? hb
    have hbound := hnames.retains hretains₁
    exact agree_of_copyInto (Nat.ne_of_lt hlt) (by simp [ScopeTree.add]) hbound hcopied name hname
  obtain ⟨hrun, hend, hretains⟩ :=
    (meets_inScope m.scopes.size hbody m₂ hm₂).always m₂ rfl
      (copyBack m.scopes.size m.current names)
      (copyBack_relocate _ _ names) fun m' hm' hk hr => by
        obtain ⟨⟨hlast, hk'⟩, hretains⟩ :=
          meets_copyBack hm' fun name hname => (hagree name hname).retains hr.scopes
        exact ⟨⟨hlast, C.trans hk hk'⟩, hretains.current.trans hr.current, hretains.scopes⟩
  exact ⟨hrun, hend, hretains⟩

theorem meets_declaring {ways : Ways} {f g : Invoke} {kind : BindingKind} (hkind : kind ≠ .var)
    {ds : List Declarator}
    (hdeclared : ∀ d ∈ ds, C.Meets ρ (d.runWith ways f kind) ((d.relocate ρ).run g kind))
    {α : Type} {x y : Eval α} {m : Machine} (hm : C.holds m) (hcurrent : m.current < m.scopes.size)
    (hx : ∀ m', C.holds m' → m.Retains m' → m'.Binds (ds.map Declarator.name) →
      C.MeetsAt ρ m' x y) :
    C.MeetsAt ρ m (Declarator.runAllWith ways f kind ds >>= fun _ => x)
      (Declarator.runAll g kind (Declarator.relocateAll ρ ds) >>= fun _ => y) := by
  induction ds generalizing m with
  | nil => exact hx m hm (.refl m) nofun
  | cons d ds ih =>
    obtain ⟨hd, hds⟩ := List.forall_mem_cons.mp hdeclared
    obtain ⟨name, init⟩ := d
    simp only [Declarator.relocateAll, Declarator.runAllWith, Declarator.runAll, bind_assoc]
    refine (hd m hm).bind fun u m₁ hr hm₁ _ hretains => ?_
    have hcurrent₁ : m₁.current < m₁.scopes.size := by
      rw [hretains.current]
      exact Nat.lt_of_lt_of_le hcurrent hretains.scopes.size_le
    refine ih hds hm₁ hcurrent₁ fun m' hm' hretains' hbinds => ?_
    refine hx m' hm' (hretains.trans hretains') (List.forall_mem_cons.mpr ⟨?_, hbinds⟩)
    have hname := binds_declaratorWith hkind hr hcurrent₁
    exact hname.retains hretains' name.name (List.mem_singleton_self _)

theorem meets_rounds (hfuel : C.fails .outOfFuel) {ways : Ways} {f g : Invoke} {kind : BindingKind}
    (hkind : kind ≠ .var) {ds : List Declarator}
    (hdeclared : ∀ d ∈ ds, C.Meets ρ (d.runWith ways f kind) ((d.relocate ρ).run g kind))
    {condition condition' update update' : Option (Eval Value)}
    (hcondition : IfAny (C.Meets ρ) condition condition')
    (hupdate : IfAny (C.Meets ρ) update update')
    {body body' : Eval Completion} (hbody : C.Meets ρ body body') (n : Nat) :
    C.Meets ρ
      (inBlock do
        Declarator.runAllWith ways f kind ds
        Eval.forLoop condition update (loopBody (ds.map Declarator.name) body) n)
      (inBlock do
        Declarator.runAll g kind (Declarator.relocateAll ρ ds)
        Eval.forLoop condition' update' (loopBody (ds.map Declarator.name) body') n) := by
  have hround : C.MeetsBinding ρ (ds.map Declarator.name) (loopBody (ds.map Declarator.name) body)
      (loopBody (ds.map Declarator.name) body') := by
    unfold loopBody
    split
    · exact fun m hm _ => hbody m hm
    · exact meets_iteration hbody
  have hbinding {o o' : Option (Eval Value)} (h : IfAny (C.Meets ρ) o o') :
      IfAny (C.MeetsBinding ρ (ds.map Declarator.name)) o o' := by
    cases h with
    | none => exact .none
    | some h => exact .some fun m hm _ => h m hm
  have hloop := (sequential_binding hfuel (ds.map Declarator.name)).forLoop (hbinding hcondition)
    (hbinding hupdate) hround n
  intro m hm
  refine .of_reading ?_
  refine (meets_addScope _ m hm).bind fun scope m₁ hadded hm₁ _ _ => ?_
  cases hadded
  refine .inScope hm₁ _ (meets_declaring hkind hdeclared (C.enter _ hm₁) ?_ ?_)
  · simp [ScopeTree.add]
  · exact fun m' hm' _ hbinds => hloop m' hm' hbinds

theorem loopCongruence (hfuel : C.fails .outOfFuel) :
    LoopCongruence P ρ (fun x y => C.Meets ρ x y) where
  toCongruence := congruence
  outOfFuel := meets_throw hfuel
  rounds := meets_rounds hfuel

end Rounds

end Contract

end Eval

end ScriptEngine
