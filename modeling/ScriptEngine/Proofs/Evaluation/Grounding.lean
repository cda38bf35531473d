import ScriptEngine.Proofs.Evaluation.Enclosure
import ScriptEngine.Proofs.Evaluation.FunctionSource
import ScriptEngine.Proofs.Evaluation.Invariant

/-!
# Scopes go back to the root

The only scopes without a parent are made to hold `var` bindings, and a scope is younger than its
parent. So from wherever a run is, the parents lead to a scope that holds `var` bindings.
-/

namespace ScriptEngine

open Eval

/-- A well-scoped machine whose scopes hold `var` bindings if they have no parent. -/
structure Machine.Grounded (m : Machine) : Prop extends m.WellScoped where
  roots : ∀ i < m.scopes.size, (m.scopes.scope i).parent = none →
    (m.scopes.scope i).holdsVars = true

namespace Machine.Grounded

variable {m : Machine} (hm : m.Grounded)

include hm

theorem vars : ∃ s, m.scopes.Inside s m.current ∧ (m.scopes.scope s).holdsVars = true := by
  obtain ⟨root, hroot, hparent⟩ := ScopeTree.exists_root hm.ordered m.current
  have hinside := ScopeTree.inside_of_climb hm.ordered hroot
  exact ⟨root, hinside, hm.roots root (Nat.lt_of_le_of_lt hinside.le hm.current) hparent⟩

theorem enter {i : ScopeId} (hi : i < m.scopes.size) (frames : List Frame)
    (joining : List ObjectId) :
    Grounded { m with current := i, frames := frames, joining := joining } :=
  ⟨⟨hm.ordered, hi, hm.homes⟩, hm.roots⟩

theorem put (i : ScopeId) (name : String) (b : Binding) :
    Grounded { m with scopes := m.scopes.put i name b } where
  toWellScoped := hm.toWellScoped.put i name b
  roots j hj hparent := by
    simp only [ScopeTree.size_put, ScopeTree.parent_put, ScopeTree.holdsVars_put] at hj hparent ⊢
    exact hm.roots j hj hparent

theorem add {i : ScopeId} (hi : i < m.scopes.size) (holdsVars : Bool) (receiver : Option Value) :
    Grounded { m with scopes := m.scopes.add ⟨∅, some i, holdsVars, receiver⟩ } where
  toWellScoped := hm.toWellScoped.addScope rfl hi
  roots j hj hparent := by
    simp only [ScopeTree.scope_add] at hparent ⊢
    split at hparent
    next => cases hparent
    next hne =>
      have hle : j < m.scopes.size + 1 := by simpa [ScopeTree.add] using hj
      rw [if_neg hne]
      exact hm.roots j (Nat.lt_of_le_of_ne (Nat.le_of_lt_succ hle) hne) hparent

theorem alloc {o : Object} (ho : ∀ f home, o.kind = .closure f home → home < m.scopes.size) :
    Grounded { m with heap := m.heap.alloc o } :=
  ⟨hm.toWellScoped.alloc ho, hm.roots⟩

theorem modify {change : Object → Object} (hchange : ∀ o : Object, o.kind.Similar (change o).kind)
    (id : ObjectId) : Grounded { m with heap := m.heap.modify id change } :=
  ⟨hm.toWellScoped.modify hchange id, hm.roots⟩

theorem addGlobal (name : String) (f : Native) : (m.addGlobal name f).Grounded := by
  have hnative : Grounded (m.addNative name f) := hm.alloc fun _ _ hkind => by cases hkind
  exact hnative.put _ _ _

end Machine.Grounded

namespace Invariant

def grounding : Invariant where
  World := Nat
  le := (· ≤ ·)
  holds w m := w = m.scopes.size ∧ m.Grounded
  sound _ _ := True
  scope w i := i < w
  plain _ _ := True
  admits _ := True

theorem grounding_lawful : grounding.Lawful where
  refl := Nat.le_refl
  trans := Nat.le_trans
  sound_mono _ _ := trivial
  scope_mono h hi := Nat.lt_of_lt_of_le hi h
  plain_mono _ _ := trivial
  primitive _ := trivial
  admits_of_le _ _ := trivial
  admits_max := trivial
  current hm := hm.1 ▸ hm.2.current
  proto _ _ := trivial
  get _ _ _ := trivial
  elements _ _ _ _ := ⟨trivial, fun _ _ => trivial⟩
  closure hm id f s hkind := ⟨fun _ _ => trivial, hm.1 ▸ hm.2.homes id f s hkind⟩
  host _ _ _ _ _ _ := trivial
  bound _ _ _ _ _ := trivial
  nearest? hm i j hi p hj :=
    Nat.lt_of_le_of_lt (ScopeTree.inside_of_climb hm.2.ordered hj).le hi
  receiver _ _ := trivial
  enter hm i hi := ⟨hm.1, hm.2.enter (hm.1 ▸ hi) _ _⟩
  calls hm frames joining := ⟨hm.1, hm.2.enter hm.2.current frames joining⟩
  put hm i hi name b _ := ⟨hm.1.trans (ScopeTree.size_put ..).symm, hm.2.put i name b⟩
  add := by
    rintro _ m ⟨rfl, hm⟩ i hi holdsVars receiver -
    have hsize : (m.scopes.add ⟨∅, some i, holdsVars, receiver⟩).size = m.scopes.size + 1 :=
      Array.size_push ..
    exact ⟨m.scopes.size + 1, Nat.le_succ _, Nat.lt_succ_self _, hsize.symm, hm.add hi _ _⟩
  fresh := by
    rintro w m ⟨hw, hm⟩ o ho
    refine ⟨w, Nat.le_refl w, trivial, fun _ => trivial, hw, hm.alloc fun f home hkind => ?_⟩
    cases ho with
    | plain | array => cases hkind
    | error name message ho =>
      subst ho
      cases hkind
    | closure hf hs =>
      cases hkind
      exact hw ▸ hs.2
  edit hm id change hchange := ⟨hm.1, hm.2.modify hchange.similar id⟩

end Invariant

namespace Machine

theorem start_grounded (prelude : Bool) (maxCallDepth : Option UInt64) :
    (start prelude maxCallDepth).Grounded := by
  refine ⟨start_wellScoped prelude maxCallDepth, ?_⟩
  refine start_induction (Q := fun m => ∀ i < m.scopes.size, (m.scopes.scope i).parent = none →
    (m.scopes.scope i).holdsVars = true) ?_ ?_ ?_ maxCallDepth ?_ prelude
  · exact fun m id key v hm => hm
  · exact fun m name f _ hm => hm
  · intro m name v hm i hi hparent
    simp only [setGlobal, ScopeTree.setVar, ScopeTree.size_put, ScopeTree.parent_put,
      ScopeTree.holdsVars_put] at hi hparent ⊢
    exact hm i hi hparent
  · intro i hi _
    obtain rfl := Nat.lt_one_iff.mp hi
    rfl

/-- In a session the scopes always go back to the root, so a machine with its heap and scopes is
grounded, whatever the current scope and the calls are. -/
theorem InSession.grounded {m : Machine} (hm : m.InSession) : m.Grounded := by
  induction hm with
  | start prelude maxCallDepth => exact start_grounded prelude maxCallDepth
  | bindHost _ name f ih => exact ih.addGlobal name (.host f)
  | program _ _ stop fuel ih =>
    have hrest := ih.enter (Nat.zero_lt_of_lt ih.current) [] []
    obtain ⟨_, -, hm⟩ := Invariant.grounding_lawful.program stop fuel ⟨rfl, hrest⟩
      fun _ _ => trivial
    exact hm.2
  | call _ callee receiver args stop fuel ih =>
    obtain ⟨_, -, hm⟩ := Invariant.grounding_lawful.activity stop fuel ⟨rfl, ih⟩ fuel
      (a := .value callee receiver args) (fun _ _ => trivial) fun _ _ => trivial
    exact hm.2

end Machine

end ScriptEngine
