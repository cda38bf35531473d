import ScriptEngine.Prelude

/-!
# Properties of the prelude

The machine that programs start on is made from a bare one in three ways: defining a property,
adding a native function that is not a host's, and binding a global. A property that these keep
holds of it.
-/

namespace ScriptEngine

def Native.isBuiltin : Native → Bool
  | .host _ => false
  | _ => true

namespace Machine

section Induction

variable {Q : Machine → Prop}
variable (hdefine : ∀ m id key v, Q m → Q (m.define id key v))
variable (hnative : ∀ m name (f : Native), f.isBuiltin → Q m → Q (m.addNative name f))
variable (hglobal : ∀ m name v, Q m → Q (m.setGlobal name v))

include hdefine hnative

theorem addMethods_induction {m : Machine} (hm : Q m) (id : ObjectId)
    (methods : List (String × Native)) (hmethods : ∀ method ∈ methods, method.2.isBuiltin) :
    Q (m.addMethods id methods) := by
  induction methods generalizing m with
  | nil => exact hm
  | cons method methods ih =>
    rw [List.forall_mem_cons] at hmethods
    exact ih (hdefine _ _ _ _ (hnative _ _ _ hmethods.1 hm)) hmethods.2

include hglobal

theorem addConstructor_induction {m : Machine} (hm : Q m) (name : String) (f : Native)
    (hf : f.isBuiltin) (proto : Proto) (methods : List (String × Native))
    (hmethods : ∀ method ∈ methods, method.2.isBuiltin) :
    Q (m.addConstructor name f proto methods) := by
  apply hglobal
  apply addMethods_induction hdefine hnative _ _ _ hmethods
  exact hdefine _ _ _ _ (hnative _ _ _ hf hm)

theorem withBasics_induction {m : Machine} (hm : Q m) : Q m.withBasics := by
  have hprotos : ∀ (ps : List Proto) (m : Machine), Q m →
      Q (ps.foldl (fun m p => m.addMethods p.id (protoMethods p)) m) := by
    intro ps
    induction ps with
    | nil => exact fun _ hm => hm
    | cons p ps ih =>
      intro m hm
      refine ih _ (addMethods_induction hdefine hnative hm _ _ ?_)
      cases p <;> decide
  apply hglobal
  apply hglobal
  apply hglobal
  exact hprotos _ _ (hdefine _ _ _ _ (hdefine _ _ _ _ hm))

theorem withConstructors_induction {m : Machine} (hm : Q m) : Q m.withConstructors := by
  have herrors : ∀ (cs : List ErrorClass) (m : Machine), Q m →
      Q (cs.foldl (fun m c => m.addConstructor c.name (.errorConstructor c) .error []) m) := by
    intro cs
    induction cs with
    | nil => exact fun _ hm => hm
    | cons c cs ih =>
      intro m hm
      exact ih _ (addConstructor_induction hdefine hnative hglobal hm _ _ rfl _ _ (by simp))
  apply herrors
  iterate 5
    refine addConstructor_induction hdefine hnative hglobal ?_ _ _ rfl _ _ (by decide)
  exact hm

theorem start_induction (maxCallDepth : Option UInt64) (hbare : Q (bare maxCallDepth))
    (prelude : Bool) : Q (start prelude maxCallDepth) := by
  have hbasics : Q (bare maxCallDepth).withBasics :=
    withBasics_induction hdefine hnative hglobal hbare
  unfold start
  split
  · exact withConstructors_induction hdefine hnative hglobal hbasics
  · exact hbasics

end Induction

end Machine

end ScriptEngine
