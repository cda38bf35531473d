import ScriptEngine.Proofs.Evaluation.Sealing

/-!
# Rounds of a `for`

A `for` that declares variables runs each round in a new scope below its own. The scope starts with
copies of the variables, and what they have become is copied back when the body ends. The
declaration has bound the variables, all different, and they stay bound, so the copies always
succeed.
-/

namespace ScriptEngine

open Eval

theorem ScopeTree.lookup?_of_getLocal? {t : ScopeTree} {id : ScopeId} {name : String} {b : Binding}
    (h : t.getLocal? id name = some b) : t.lookup? id name = some b.value := by
  have hholder : t.holder? id name = some id := by
    simp [holder?, nearest?, climb, has_eq, h]
  simp [lookup?, hholder, h]

namespace Eval

section Loops

def goesOn : Completion → Bool
  | .normal _ | .skip => true
  | .leave | .giveBack _ => false

def updating : Option (Eval Value) → Eval Unit
  | none => return
  | some action => do
    let _ ← action

/-- A `for` that stands before its condition on `m` comes to its body on another machine, after so
many rounds. -/
inductive BeginsRound (condition update : Option (Eval Value)) (body : Eval Completion)
    (m : Machine) : Nat → Machine → Prop where
  | first {m' : Machine} (hcondition : holds condition m = .ok true m') :
      BeginsRound condition update body m 0 m'
  | next {k : Nat} {m₁ m₂ m₃ m₄ : Machine} {c : Completion}
      (h : BeginsRound condition update body m k m₁) (hbody : body m₁ = .ok c m₂)
      (hgoes : goesOn c = true) (hupdate : updating update m₂ = .ok () m₃)
      (hcondition : holds condition m₃ = .ok true m₄) :
      BeginsRound condition update body m (k + 1) m₄

variable {condition update : Option (Eval Value)} {body : Eval Completion}

theorem BeginsRound.trans {k k' : Nat} {m m₁ m₂ m₃ m₄ : Machine} {c : Completion}
    (h : BeginsRound condition update body m k m₁) (hbody : body m₁ = .ok c m₂)
    (hgoes : goesOn c = true) (hupdate : updating update m₂ = .ok () m₃)
    (h' : BeginsRound condition update body m₃ k' m₄) :
    BeginsRound condition update body m (k + k' + 1) m₄ := by
  induction h' with
  | first hcondition => exact .next h hbody hgoes hupdate hcondition
  | next _ hbody' hgoes' hupdate' hcondition' ih =>
    exact .next ih hbody' hgoes' hupdate' hcondition'

def afterBody (condition update : Option (Eval Value)) (body : Eval Completion) (n : Nat) :
    Completion → Eval Completion
  | .leave => return .undefined
  | .giveBack v => return .giveBack v
  | .normal _ | .skip => do
    updating update
    forLoop condition update body n

theorem forLoop_succ (n : Nat) :
    forLoop condition update body (n + 1) = do
      if ← holds condition then body >>= afterBody condition update body n
        else return .undefined := by
  conv => lhs; unfold forLoop
  refine bind_congr fun goes => ?_
  cases goes with
  | false => rfl
  | true =>
    refine bind_congr fun c => ?_
    cases c <;> cases update <;> simp [afterBody, updating]

theorem BeginsRound.forLoop_eq {k : Nat} {m m' : Machine}
    (h : BeginsRound condition update body m k m') (n : Nat) :
    forLoop condition update body (k + n + 1) m =
      (body >>= afterBody condition update body n) m' := by
  induction h generalizing n with
  | first hcondition =>
    rw [Nat.zero_add, forLoop_succ]
    simp only [bind, EStateM.bind, hcondition, if_true]
  | @next k m₁ m₂ m₃ m₄ c _ hbody hgoes hupdate hcondition ih =>
    have hround : afterBody condition update body (n + 1) c m₂ =
        (updating update >>= fun _ => forLoop condition update body (n + 1)) m₂ := by
      cases c with
      | normal | skip => rfl
      | leave | giveBack => cases hgoes
    rw [Nat.add_right_comm k 1 n, Nat.add_assoc k n 1, ih (n + 1)]
    simp only [bind, EStateM.bind, hbody, hupdate] at hround ⊢
    rw [hround, forLoop_succ]
    simp only [bind, EStateM.bind, hcondition, if_true]

theorem forLoop_congr {body' : Eval Completion} (n : Nat) {m : Machine}
    (h : ∀ k m', BeginsRound condition update body m k m' → body' m' = body m') :
    forLoop condition update body' n m = forLoop condition update body n m := by
  induction n generalizing m with
  | zero => rfl
  | succ n ih =>
    simp only [forLoop_succ, bind, EStateM.bind]
    cases hcondition : holds condition m with
    | error e m₁ => rfl
    | ok goes m₁ =>
      cases goes with
      | false => rfl
      | true =>
        simp only [if_true, EStateM.bind, h 0 m₁ (.first hcondition)]
        cases hbody : body m₁ with
        | error e m₂ => rfl
        | ok c m₂ =>
          have hrest (hgoes : goesOn c = true) :
              (updating update >>= fun _ => forLoop condition update body' n) m₂ =
                (updating update >>= fun _ => forLoop condition update body n) m₂ := by
            simp only [bind, EStateM.bind]
            cases hupdate : updating update m₂ with
            | error e m₃ => rfl
            | ok u m₃ =>
              exact ih fun k m' hm' => h _ m' (.trans (.first hcondition) hbody hgoes hupdate hm')
          cases c with
          | normal | skip => exact hrest rfl
          | leave | giveBack => rfl

theorem BeginsRound.unique {k : Nat} {m m' m'' : Machine}
    (h : BeginsRound condition update body m k m')
    (h' : BeginsRound condition update body m k m'') :
    m' = m'' := by
  induction h generalizing m'' with
  | first hcondition =>
    cases h' with
    | first hcondition' =>
      cases hcondition.symm.trans hcondition'
      rfl
  | next _ hbody _ hupdate hcondition ih =>
    cases h' with
    | next h' hbody' _ hupdate' hcondition' =>
      cases ih h'
      cases hbody.symm.trans hbody'
      cases hupdate.symm.trans hupdate'
      cases hcondition.symm.trans hcondition'
      rfl

end Loops

section Invariants

variable {Q : Machine → Prop}

theorem bind_induction {α β : Type} {x : Eval α} {g : α → Eval β} {m : Machine}
    (hx : Q (final (x m))) (hg : ∀ a m', Q m' → Q (final (g a m'))) : Q (final ((x >>= g) m)) := by
  simp only [bind, EStateM.bind]
  cases hr : x m with
  | ok a m' =>
    rw [hr] at hx
    exact hg a m' hx
  | error e m' =>
    rw [hr] at hx
    exact hx

variable {f : Invoke} (hexpr : ∀ m (e : Expr), Q m → Q (final (e.eval f m)))

include hexpr

theorem holds_induction (condition : Option Expr) {m : Machine} (hm : Q m) :
    Q (final (holds (Expr.evalIfAny f condition) m)) := by
  cases condition with
  | none => exact hm
  | some e => exact bind_induction (hexpr m e hm) fun _ _ h => h

theorem updating_induction (update : Option Expr) {m : Machine} (hm : Q m) :
    Q (final (updating (Expr.evalIfAny f update) m)) := by
  cases update with
  | none => exact hm
  | some e => exact bind_induction (hexpr m e hm) fun _ _ h => h

variable {condition update : Option Expr} {body : Eval Completion} {k n : Nat} {m m' : Machine}

theorem afterBody_induction
    (hloop : ∀ m, Q m →
      Q (final (forLoop (Expr.evalIfAny f condition) (Expr.evalIfAny f update) body n m)))
    (c : Completion) (hm : Q m) :
    Q (final (afterBody (Expr.evalIfAny f condition) (Expr.evalIfAny f update) body n c m)) := by
  cases c with
  | normal | skip =>
    exact bind_induction (updating_induction hexpr update hm) fun _ m₁ hm₁ => hloop m₁ hm₁
  | leave | giveBack => exact hm

theorem next_induction {c : Completion} {m₂ m₃ m₄ : Machine} (hm : Q (final (body m)))
    (hbody : body m = .ok c m₂) (hupdate : updating (Expr.evalIfAny f update) m₂ = .ok () m₃)
    (hcondition : holds (Expr.evalIfAny f condition) m₃ = .ok true m₄) : Q m₄ := by
  rw [hbody] at hm
  have hupdated := updating_induction hexpr update hm
  rw [show updating (Expr.evalIfAny f update) (final (.ok c m₂)) = _ from hupdate] at hupdated
  have hholds := holds_induction hexpr condition hupdated
  rwa [show holds (Expr.evalIfAny f condition) (final (.ok () m₃)) = _ from hcondition] at hholds

variable (hround : ∀ m, Q m → Q (final (body m)))

include hround

theorem forLoop_induction (hm : Q m) :
    Q (final (forLoop (Expr.evalIfAny f condition) (Expr.evalIfAny f update) body n m)) := by
  induction n generalizing m with
  | zero => exact hm
  | succ n ih =>
    rw [forLoop_succ]
    refine bind_induction (holds_induction hexpr condition hm) fun goes m₁ hm₁ => ?_
    cases goes with
    | false => exact hm₁
    | true =>
      refine bind_induction (hround m₁ hm₁) fun c m₂ hm₂ => ?_
      exact afterBody_induction hexpr (fun _ => ih) c hm₂

variable (h : BeginsRound (Expr.evalIfAny f condition) (Expr.evalIfAny f update) body m k m')

include h

theorem BeginsRound.induction (hm : Q m) : Q m' := by
  induction h with
  | first hcondition =>
    have hholds := holds_induction hexpr condition hm
    rwa [hcondition] at hholds
  | next _ hbody _ hupdate hcondition ih =>
    exact next_induction hexpr (hround _ ih) hbody hupdate hcondition

/-- What holds when the body of a round has ended holds when later rounds begin. -/
theorem BeginsRound.later_induction (hended : Q (final (body m'))) {k' : Nat} {m'' : Machine}
    (hlt : k < k')
    (h' : BeginsRound (Expr.evalIfAny f condition) (Expr.evalIfAny f update) body m k' m'') :
    Q m'' := by
  induction h' with
  | first => exact absurd hlt (Nat.not_lt_zero k)
  | next h₁ hbody _ hupdate hcondition ih =>
    rcases Nat.lt_succ_iff_lt_or_eq.mp hlt with hlt | rfl
    · exact next_induction hexpr (hround _ (ih hlt)) hbody hupdate hcondition
    · cases h.unique h₁
      exact next_induction hexpr hended hbody hupdate hcondition

theorem BeginsRound.end_induction (hended : Q (final (body m'))) (hlt : k < n) :
    Q (final (forLoop (Expr.evalIfAny f condition) (Expr.evalIfAny f update) body n m)) := by
  obtain ⟨n, rfl⟩ : ∃ i, n = k + i + 1 := ⟨n - k - 1, by omega⟩
  rw [h.forLoop_eq]
  refine bind_induction hended fun c m₂ hm₂ => ?_
  exact afterBody_induction hexpr (fun _ => forLoop_induction hexpr hround) c hm₂

end Invariants

section Copies

variable {source target : ScopeId} {names : List String} {m : Machine}

structure CopiesInto (source target : ScopeId) (names : List String) (t t' : ScopeTree) : Prop where
  size : t'.size = t.size
  parent : (t'.scope target).parent = (t.scope target).parent
  holdsVars : (t'.scope target).holdsVars = (t.scope target).holdsVars
  copied : ∀ name ∈ names, t'.getLocal? target name = t.getLocal? source name
  others : ∀ name ∉ names, t'.getLocal? target name = t.getLocal? target name
  elsewhere : ∀ id ≠ target, t'.scope id = t.scope id

theorem copyInto_of_binds (hne : source ≠ target) (htarget : target < m.scopes.size)
    (hnodup : names.Nodup) (hbound : ∀ name ∈ names, (m.scopes.getLocal? source name).isSome)
    (hfree : ∀ name ∈ names, m.scopes.getLocal? target name = none) :
    ∃ t, copyInto source target names m = .ok () { m with scopes := t } ∧
      CopiesInto source target names m.scopes t := by
  induction names generalizing m with
  | nil => exact ⟨m.scopes, rfl, rfl, rfl, rfl, nofun, fun _ _ => rfl, fun _ _ => rfl⟩
  | cons name names ih =>
    obtain ⟨hname, hnodup⟩ := List.nodup_cons.mp hnodup
    rw [List.forall_mem_cons] at hbound hfree
    obtain ⟨b, hb⟩ := Option.isSome_iff_exists.mp hbound.1
    have hother (id : ScopeId) (n : String) (h : id ≠ target ∨ n ≠ name) :
        (m.scopes.put target name b).getLocal? id n = m.scopes.getLocal? id n := by
      rw [ScopeTree.getLocal?_put, if_neg]
      rintro ⟨hid, hn, -⟩
      exact h.elim (fun h => h hid) fun h => h hn
    have hmem : ∀ n ∈ names, n ≠ name := by
      rintro n hn rfl
      exact hname hn
    obtain ⟨t, hr, hcopies⟩ := ih (m := { m with scopes := m.scopes.put target name b })
      (by rwa [ScopeTree.size_put]) hnodup
      (fun n hn => by rw [hother source n (.inl hne)]; exact hbound.2 n hn)
      (fun n hn => by rw [hother target n (.inr (hmem n hn))]; exact hfree.2 n hn)
    refine ⟨t, ?_, ?_⟩
    · simp only [copyInto, reading, bind, EStateM.bind, hb, declareLocal,
        ScopeTree.refuses, hfree.1]
      exact hr
    · refine ⟨?_, ?_, ?_, List.forall_mem_cons.mpr ⟨?_, fun n hn => ?_⟩, fun n hn => ?_,
        fun id hid => ?_⟩
      · rw [hcopies.size, ScopeTree.size_put]
      · rw [hcopies.parent, ScopeTree.parent_put]
      · rw [hcopies.holdsVars, ScopeTree.holdsVars_put]
      · rw [hcopies.others name hname, ScopeTree.getLocal?_put, if_pos ⟨rfl, rfl, htarget⟩, hb]
      · rw [hcopies.copied n hn, hother source n (.inl hne)]
      · rw [List.mem_cons, not_or] at hn
        rw [hcopies.others n hn.2, hother target n (.inr hn.1)]
      · rw [hcopies.elsewhere id hid]
        show ScopeTree.scope (m.scopes.modify target _) id = _
        rw [ScopeTree.scope_modify, if_neg fun h => hid h.1]

theorem copyBack_eq (source target : ScopeId) (names : List String) (m : Machine) :
    copyBack source target names m =
      { m with scopes := (copyBack source target names m).scopes } := by
  induction names generalizing m with
  | nil => rfl
  | cons name names ih =>
    refine (ih _).trans ?_
    cases hb : m.scopes.getLocal? source name with
    | none => simp only [copyBack, List.foldl_cons, hb]
    | some b => simp only [copyBack, List.foldl_cons, hb]

theorem getLocal?_copyBack_of_ne {id : ScopeId} {n : String} (h : id ≠ target ∨ n ∉ names) :
    (copyBack source target names m).scopes.getLocal? id n = m.scopes.getLocal? id n := by
  induction names generalizing m with
  | nil => rfl
  | cons name names ih =>
    have hrest : id ≠ target ∨ n ∉ names :=
      h.imp_right fun hn hmem => hn (List.mem_cons_of_mem _ hmem)
    simp only [copyBack, List.foldl_cons]
    refine (ih hrest).trans ?_
    cases m.scopes.getLocal? source name with
    | none => rfl
    | some b =>
      show ScopeTree.getLocal? (m.scopes.overwriteLocal target name b.value) id n = _
      rw [ScopeTree.overwriteLocal_eq]
      split
      · rw [ScopeTree.getLocal?_put, if_neg]
        rintro ⟨hid, rfl, -⟩
        exact h.elim (fun h => h hid) fun h => h (List.mem_cons_self ..)
      · rfl

theorem getLocal?_copyBack_singleton {name : String} (htarget : target < m.scopes.size)
    {b old : Binding} (hb : m.scopes.getLocal? source name = some b)
    (hold : m.scopes.getLocal? target name = some old) :
    (copyBack source target [name] m).scopes.getLocal? target name =
      some ⟨b.value, old.kind⟩ := by
  simp only [copyBack, List.foldl_cons, List.foldl_nil, hb, ScopeTree.overwriteLocal_eq, hold]
  rw [ScopeTree.getLocal?_put, if_pos ⟨rfl, rfl, htarget⟩]

theorem getLocal?_copyBack_of_mem (hne : source ≠ target) {name : String} (hname : name ∈ names)
    {b old : Binding} (hb : m.scopes.getLocal? source name = some b)
    (hold : m.scopes.getLocal? target name = some old) :
    (copyBack source target names m).scopes.getLocal? target name = some ⟨b.value, old.kind⟩ := by
  induction names generalizing m old with
  | nil => cases hname
  | cons n names ih =>
    show (copyBack source target names (copyBack source target [n] m)).scopes.getLocal? _ _ = _
    have hsource : (copyBack source target [n] m).scopes.getLocal? source name = some b := by
      rw [getLocal?_copyBack_of_ne (.inl hne), hb]
    by_cases hn : name = n
    · subst hn
      have hwritten := getLocal?_copyBack_singleton (ScopeTree.lt_size_of_getLocal? hold) hb hold
      by_cases hmem : name ∈ names
      · exact @ih _ hmem ⟨b.value, old.kind⟩ hsource hwritten
      · exact (getLocal?_copyBack_of_ne (.inr hmem)).trans hwritten
    · have hmem : name ∈ names := (List.mem_cons.mp hname).resolve_left hn
      refine ih hmem hsource ?_
      rw [getLocal?_copyBack_of_ne (.inr fun h => hn (List.mem_singleton.mp h)), hold]

end Copies

section Iterations

variable {names : List String} {m : Machine}

/-- The machine on which the body of a round starts: in a new scope below the scope of the loop,
with the loop variables as they are there and nothing else. -/
structure OpensRound (names : List String) (before inside : Machine) : Prop where
  machine : inside = { before with scopes := inside.scopes, current := before.scopes.size }
  size : inside.scopes.size = before.scopes.size + 1
  parent : (inside.scopes.scope before.scopes.size).parent = some before.current
  holdsVars : (inside.scopes.scope before.scopes.size).holdsVars = false
  copied : ∀ name ∈ names, inside.scopes.getLocal? before.scopes.size name =
    before.scopes.getLocal? before.current name
  others : ∀ name ∉ names, inside.scopes.getLocal? before.scopes.size name = none
  older : ∀ id < before.scopes.size, inside.scopes.scope id = before.scopes.scope id

def closeRound (names : List String) (before ended : Machine) : Machine :=
  copyBack before.scopes.size before.current names { ended with current := before.current }

def openBlock (m : Machine) : Machine :=
  { m with scopes := m.scopes.add (.block m.current) }

theorem scope_openBlock (m : Machine) :
    (openBlock m).scopes.scope m.scopes.size = .block m.current := by
  simp [openBlock, ScopeTree.scope_add]

theorem iteration_eq (hcurrent : m.current < m.scopes.size) (hnodup : names.Nodup)
    (hbinds : m.Binds names) :
    ∃ inside, OpensRound names m inside ∧
      copyInto m.current m.scopes.size names (openBlock m) =
        .ok () { inside with current := m.current } ∧
      ∀ body, iteration names body m = always body (closeRound names m) inside := by
  have hne : m.current ≠ m.scopes.size := Nat.ne_of_lt hcurrent
  have hnew := scope_openBlock m
  have hfree (name : String) : (openBlock m).scopes.getLocal? m.scopes.size name = none := by
    rw [ScopeTree.getLocal?, hnew]
    rfl
  have hold (name : String) :
      (openBlock m).scopes.getLocal? m.current name = m.scopes.getLocal? m.current name :=
    ScopeTree.getLocal?_add _ hcurrent name
  have hsize : m.scopes.size < (openBlock m).scopes.size := by
    simp [openBlock, ScopeTree.add]
  obtain ⟨t, hcopy, hcopies⟩ := copyInto_of_binds (m := openBlock m) hne hsize
    hnodup (fun name hname => by rw [hold]; exact hbinds name hname) fun name _ => hfree name
  refine ⟨{ m with scopes := t, current := m.scopes.size }, ?_, hcopy, fun body => ?_⟩
  · refine ⟨rfl, ?_, ?_, ?_, fun name hname => ?_, fun name hname => ?_, fun id hid => ?_⟩
    · rw [hcopies.size]
      simp [openBlock, ScopeTree.add]
    · rw [hcopies.parent, hnew]
      rfl
    · rw [hcopies.holdsVars, hnew]
      rfl
    · rw [hcopies.copied name hname, hold]
    · rw [hcopies.others name hname, hfree]
    · rw [hcopies.elsewhere id (Nat.ne_of_lt hid)]
      simp [openBlock, ScopeTree.scope_add, Nat.ne_of_lt hid]
  · have hrun : iteration names body m = always (inScope m.scopes.size body)
        (copyBack m.scopes.size m.current names) { m with scopes := t } := by
      show (copyInto m.current m.scopes.size names >>= fun _ => _) (openBlock m) = _
      simp only [bind, EStateM.bind, hcopy]
      rfl
    rw [hrun]
    simp only [always, inScope]
    cases body { m with scopes := t, current := m.scopes.size } <;> rfl

/-- What a round leaves when its body has ended on a machine: the scope of the loop has the values
that the loop variables had in the scope of the round. -/
structure ClosesRound (names : List String) (before ended after : Machine) : Prop where
  machine : after = { ended with scopes := after.scopes, current := before.current }
  size : after.scopes.size = ended.scopes.size
  handedBack : ∀ name ∈ names, ∃ b b', ended.scopes.getLocal? before.scopes.size name = some b ∧
    after.scopes.getLocal? before.current name = some b' ∧ b'.value = b.value
  seen : ∀ name ∈ names, after.scopes.lookup? after.current name =
    ended.scopes.lookup? before.scopes.size name
  others : ∀ id name, id ≠ before.current ∨ name ∉ names →
    after.scopes.getLocal? id name = ended.scopes.getLocal? id name

theorem OpensRound.closes {inside ended : Machine} (h : OpensRound names m inside)
    (hcurrent : m.current < m.scopes.size) (hbinds : m.Binds names)
    (hretains : inside.scopes.Retains ended.scopes) :
    ClosesRound names m ended (closeRound names m ended) := by
  have hmachine := copyBack_eq m.scopes.size m.current names { ended with current := m.current }
  have hhandedBack : ∀ name ∈ names, ∃ b b', ended.scopes.getLocal? m.scopes.size name = some b ∧
      (closeRound names m ended).scopes.getLocal? m.current name = some b' ∧
        b'.value = b.value := by
    intro name hname
    obtain ⟨b, hb⟩ := Option.isSome_iff_exists.mp (hbinds name hname)
    have hloop : inside.scopes.getLocal? m.current name = some b := by
      rw [ScopeTree.getLocal?, h.older m.current hcurrent]
      exact hb
    obtain ⟨old, hold, -⟩ := hretains.binding _ name b hloop
    obtain ⟨new, hnew, -⟩ := hretains.binding _ name b ((h.copied name hname).trans hb)
    exact ⟨new, ⟨new.value, old.kind⟩, hnew,
      getLocal?_copyBack_of_mem (Nat.ne_of_gt hcurrent) hname hnew hold, rfl⟩
  refine ⟨hmachine, size_copyBack _ _ _ _, hhandedBack, fun name hname => ?_, fun id name hid =>
    getLocal?_copyBack_of_ne hid⟩
  obtain ⟨b, b', hb, hb', hvalue⟩ := hhandedBack name hname
  have hscope : (closeRound names m ended).current = m.current := by
    rw [closeRound, hmachine]
  rw [hscope, ScopeTree.lookup?_of_getLocal? hb, ScopeTree.lookup?_of_getLocal? hb', hvalue]

end Iterations

section Declarations

variable {stop : Machine → Bool} {fuel : Nat} {kind : BindingKind} {m m' : Machine} {u : Unit}

theorem getLocal?_of_declare (hkind : kind ≠ .var) {name : String} {v : Value}
    (h : declare name v kind m = .ok u m') : m.scopes.getLocal? m.current name = none := by
  have hscope : m.scopes.declarationScope m.current kind = m.current := by
    cases kind with
    | var => contradiction
    | let_ | const => rfl
  simp only [declare, declareLocal, reading, bind, EStateM.bind, hscope] at h
  cases hb : m.scopes.getLocal? m.current name with
  | none => rfl
  | some b =>
    have hrefuses : m.scopes.refuses m.current name kind = true := by
      simp [ScopeTree.refuses, hb, hkind]
    rw [hrefuses] at h
    cases h

theorem getLocal?_eq_none_of_retains {t t' : ScopeTree} (h : t.Retains t') {id : ScopeId}
    {name : String} (hname : t'.getLocal? id name = none) : t.getLocal? id name = none := by
  cases hb : t.getLocal? id name with
  | none => rfl
  | some b =>
    obtain ⟨b', hb', -⟩ := h.binding id name b hb
    cases hname.symm.trans hb'

theorem retains_declarator (stop : Machine → Bool) (fuel : Nat) (kind : BindingKind)
    (d : Declarator) (m : Machine) :
    m.Retains (final (d.run (monitored (stopping stop) fuel) kind m)) := by
  have hretains := retains_activity stop fuel 0 (.statement (.declaration default kind [d])) m
  simp only [Activity.run, Stmt.run, Declarator.runAll, bind, EStateM.bind] at hretains
  cases hr : d.run (monitored (stopping stop) fuel) kind m <;> rw [hr] at hretains <;>
    exact hretains

theorem getLocal?_of_declarator (hkind : kind ≠ .var) {d : Declarator}
    (h : d.run (monitored (stopping stop) fuel) kind m = .ok u m') :
    m.scopes.getLocal? m.current d.name = none := by
  obtain ⟨name, init⟩ := d
  cases init with
  | none =>
    cases kind with
    | var => contradiction
    | let_ => exact getLocal?_of_declare hkind h
    | const => cases h
  | some e =>
    have hretains := retains_activity stop fuel 0 (.expression e) m
    have hdeclare : (e.eval (monitored (stopping stop) fuel) >>= fun v =>
        Eval.declare name.name v kind) m = .ok u m' := by
      cases kind with
      | var => contradiction
      | let_ | const => exact h
    simp only [bind, EStateM.bind] at hdeclare
    simp only [Activity.run] at hretains
    cases hr : e.eval (monitored (stopping stop) fuel) m with
    | error e m₁ =>
      rw [hr] at hdeclare
      cases hdeclare
    | ok v m₁ =>
      rw [hr] at hdeclare hretains
      have hnone := getLocal?_of_declare hkind hdeclare
      rw [show m₁.current = m.current from hretains.current] at hnone
      exact getLocal?_eq_none_of_retains hretains.scopes hnone

theorem binds_declarators (hkind : kind ≠ .var) {ds : List Declarator}
    (hcurrent : m.current < m.scopes.size)
    (h : Declarator.runAll (monitored (stopping stop) fuel) kind ds m = .ok u m') :
    (∀ d ∈ ds, m.scopes.getLocal? m.current d.name = none) ∧ (ds.map Declarator.name).Nodup ∧
      m.Retains m' ∧ m'.Binds (ds.map Declarator.name) := by
  induction ds generalizing m with
  | nil =>
    cases h
    exact ⟨nofun, .nil, .refl _, nofun⟩
  | cons d ds ih =>
    have hretains := retains_declarator stop fuel kind d m
    simp only [Declarator.runAll, bind, EStateM.bind] at h
    cases hr : d.run (monitored (stopping stop) fuel) kind m with
    | error e m₁ =>
      rw [hr] at h
      cases h
    | ok u₁ m₁ =>
      rw [hr] at h hretains
      have hscope : m₁.current = m.current := hretains.current
      have hlt : m₁.current < m₁.scopes.size := by
        rw [hscope]
        exact Nat.lt_of_lt_of_le hcurrent hretains.scopes.size_le
      obtain ⟨hfree, hnodup, hrest, hbinds⟩ := ih hlt h
      have hbound : m₁.Binds [d.name] := by
        obtain ⟨name, init⟩ := d
        exact binds_declarator hkind hr hlt
      refine ⟨List.forall_mem_cons.mpr ⟨getLocal?_of_declarator hkind hr, fun d' hd' => ?_⟩, ?_,
        hretains.trans hrest, ?_⟩
      · have hnone := hfree d' hd'
        rw [hscope] at hnone
        exact getLocal?_eq_none_of_retains hretains.scopes hnone
      · refine List.nodup_cons.mpr ⟨fun hmem => ?_, hnodup⟩
        obtain ⟨d', hd', hname⟩ := List.mem_map.mp hmem
        have hsome := hbound d.name (List.mem_singleton_self _)
        rw [← hname, hfree d' hd'] at hsome
        cases hsome
      · intro name hname
        rcases List.mem_cons.mp hname with rfl | hname
        · exact hbound.retains hrest _ (List.mem_singleton_self _)
        · exact hbinds name hname

theorem wellScoped_declarators (hm : m.WellScoped) {ds : List Declarator}
    (h : Declarator.runAll (monitored (stopping stop) fuel) kind ds m = .ok u m') :
    m'.WellScoped := by
  have hstatement := hm.activity stop fuel 0 (.statement (.declaration default kind ds))
  simp only [Activity.run, Stmt.run, bind, EStateM.bind, h] at hstatement
  exact hstatement

end Declarations

theorem inBlock_eq {α : Type} (x : Eval α) (m : Machine) :
    inBlock x m = always x (fun m' => { m' with current := m.current })
      { openBlock m with current := m.scopes.size } :=
  rfl

theorem run_forLoop_of_declaration {kind : BindingKind} (hkind : kind ≠ .var)
    {ds : List Declarator} (hds : ds ≠ []) (o o' : Origin) (f : Invoke) (n : Nat)
    (condition update : Option Expr) (body : Stmt) :
    (Stmt.forLoop o (some (.declaration o' kind ds)) condition update body).run f n =
      (inBlock do
        Declarator.runAll f kind ds
        forLoop (Expr.evalIfAny f condition) (Expr.evalIfAny f update)
          (iteration (ds.map Declarator.name) (body.run f n)) n) := by
  have hnames : (ds.map Declarator.name).isEmpty = false := by
    simpa using hds
  simp only [Stmt.run, Stmt.runIfAny, Stmt.roundNames_declaration, if_neg hkind, loopBody, hnames,
    bind_assoc, pure_bind]
  rfl

end Eval

end ScriptEngine
