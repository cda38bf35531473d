import ScriptEngine.Evaluation.Call
import ScriptEngine.Proofs.Syntax.Relocation

/-!
# Relocated machines

A machine holds trees in its closures and places in its frames. What a program can read off a
machine does not depend on them: it is the same on the relocated machine.
-/

namespace ScriptEngine

variable (ρ : Relocation)

namespace Object

def Kind.relocate : Kind → Kind
  | .closure f scope => .closure (f.relocate ρ) scope
  | kind => kind

def relocate (o : Object) : Object :=
  { o with kind := o.kind.relocate ρ }

namespace Kind

@[simp] theorem isCallable_relocate (k : Kind) : (k.relocate ρ).isCallable = k.isCallable := by
  cases k <;> rfl

@[simp] theorem className_relocate (k : Kind) : (k.relocate ρ).className = k.className := by
  cases k <;> rfl

@[simp] theorem functionName?_relocate (k : Kind) :
    (k.relocate ρ).functionName? = k.functionName? := by
  cases k with
  | closure f scope => exact f.name_relocate ρ
  | plain | array | native | error => rfl

@[simp] theorem relocate_stay (k : Kind) : k.relocate .stay = k := by
  cases k with
  | closure f scope => simp [relocate]
  | plain | array | native | error => rfl

end Kind

variable (o : Object)

@[simp] theorem kind_relocate : (o.relocate ρ).kind = o.kind.relocate ρ := rfl

@[simp] theorem prototype_relocate : (o.relocate ρ).prototype = o.prototype := rfl

@[simp] theorem properties_relocate : (o.relocate ρ).properties = o.properties := rfl

@[simp] theorem relocate_stay : o.relocate .stay = o := by
  simp [relocate]

@[simp] theorem elements?_relocate : (o.relocate ρ).elements? = o.elements? := by
  obtain ⟨kind, prototype, properties⟩ := o
  cases kind <;> rfl

@[simp] theorem isArray_relocate : (o.relocate ρ).isArray = o.isArray := by
  simp [isArray]

@[simp] theorem getOwn?_relocate (key : String) : (o.relocate ρ).getOwn? key = o.getOwn? key := by
  obtain ⟨kind, prototype, properties⟩ := o
  cases kind <;> rfl

@[simp] theorem hasOwn_relocate (key : String) : (o.relocate ρ).hasOwn key = o.hasOwn key := by
  simp [hasOwn]

@[simp] theorem keys_relocate : (o.relocate ρ).keys = o.keys := by
  obtain ⟨kind, prototype, properties⟩ := o
  cases kind <;> rfl

@[simp] theorem slot?_relocate (key : String) (v : Value) :
    (o.relocate ρ).slot? key v = o.slot? key v := by
  obtain ⟨kind, prototype, properties⟩ := o
  cases kind <;> rfl

@[simp] theorem last_relocate : (o.relocate ρ).last = o.last := by
  obtain ⟨kind, prototype, properties⟩ := o
  cases kind <;> rfl

theorem relocate_define (key : String) (v : Value) :
    (o.define key v).relocate ρ = (o.relocate ρ).define key v := rfl

theorem relocate_write (slot : Slot) (key : String) (v : Value) :
    (o.write slot key v).relocate ρ = (o.relocate ρ).write slot key v := by
  obtain ⟨kind, prototype, properties⟩ := o
  cases slot with
  | property => cases kind <;> rfl
  | length n => cases kind <;> rfl
  | element i =>
    cases kind with
    | array items =>
      simp only [write]
      by_cases hi : i < items.size
      · simp [hi, relocate, Kind.relocate]
      · simp [hi, relocate, Kind.relocate]
    | plain | closure | native | error => rfl

theorem relocate_append (vs : List Value) :
    (o.append vs).relocate ρ = (o.relocate ρ).append vs := by
  obtain ⟨kind, prototype, properties⟩ := o
  cases kind <;> rfl

theorem relocate_dropLast : o.dropLast.relocate ρ = (o.relocate ρ).dropLast := by
  obtain ⟨kind, prototype, properties⟩ := o
  cases kind <;> rfl

end Object

namespace Heap

def relocate (h : Heap) : Heap :=
  h.map (Object.relocate ρ)

variable (h : Heap)

@[simp] theorem size_relocate : (h.relocate ρ).size = h.size := by
  simp [relocate]

@[simp] theorem relocate_stay : h.relocate .stay = h := by
  have hid : Object.relocate .stay = id := funext fun o => o.relocate_stay
  simp [relocate, hid]

@[simp] theorem object_relocate (id : ObjectId) :
    (h.relocate ρ).object id = (h.object id).relocate ρ := by
  simp only [relocate, object, Array.getD_eq_getD_getElem?, Array.getElem?_map]
  cases h[id]? <;> rfl

theorem relocate_alloc (o : Object) :
    (h.alloc o).relocate ρ = (h.relocate ρ).alloc (o.relocate ρ) := by
  simp [alloc, relocate]

theorem relocate_modify {f : Object → Object} (hf : ∀ o, (f o).relocate ρ = f (o.relocate ρ))
    (id : ObjectId) : relocate ρ (h.modify id f) = (h.relocate ρ).modify id f := by
  apply Array.ext_getElem?
  intro i
  simp only [relocate, Array.getElem?_map, Array.getElem?_modify]
  split
  · cases h[i]? with
    | none => rfl
    | some o => exact congrArg some (hf o)
  · rfl

@[simp] theorem getWithin_relocate (key : String) (n : Nat) (id : ObjectId) :
    (h.relocate ρ).getWithin key n id = h.getWithin key n id := by
  induction n generalizing id with
  | zero => rfl
  | succ n ih =>
    unfold getWithin
    simp [ih]

@[simp] theorem get_relocate (id : ObjectId) (key : String) :
    (h.relocate ρ).get id key = h.get id key := by
  simp [get]

@[simp] theorem callable?_relocate (v : Value) : (h.relocate ρ).callable? v = h.callable? v := by
  cases v <;> simp [callable?]

@[simp] theorem typeOf_relocate (v : Value) : (h.relocate ρ).typeOf v = h.typeOf v := by
  cases v <;> simp [typeOf]

@[simp] theorem errorSummary_relocate (id : ObjectId) :
    (h.relocate ρ).errorSummary id = h.errorSummary id := by
  simp [errorSummary, textProperty]

@[simp] theorem displayWith_relocate (elements : Array Value → String) (v : Value) :
    (h.relocate ρ).displayWith elements v = h.displayWith elements v := by
  cases v with
  | object id =>
    simp only [displayWith, object_relocate, Object.kind_relocate, errorSummary_relocate]
    cases (h.object id).kind with
    | closure f scope => simp [Object.Kind.relocate]
    | plain | array | native | error => rfl
  | undefined | null | bool | number | string => rfl

@[simp] theorem displayWithin_relocate (n : Nat) (v : Value) :
    (h.relocate ρ).displayWithin n v = h.displayWithin n v := by
  induction n generalizing v with
  | zero => exact h.displayWith_relocate ρ _ v
  | succ n ih =>
    have hsame : (h.relocate ρ).displayWithin n = h.displayWithin n := funext ih
    simp [displayWithin, hsame]

@[simp] theorem display_relocate (v : Value) : (h.relocate ρ).display v = h.display v := by
  simp [display]

@[simp] theorem propertyOf_relocate (v : Value) (key : String) :
    Eval.propertyOf (h.relocate ρ) v key = Eval.propertyOf h v key := by
  cases v <;> simp [Eval.propertyOf]

@[simp] theorem functionName_relocate (id : ObjectId) :
    Eval.functionName (h.relocate ρ) id = Eval.functionName h id := by
  simp [Eval.functionName]

@[simp] theorem tagOf_relocate (v : Value) : Native.tagOf (h.relocate ρ) v = Native.tagOf h v := by
  cases v <;> simp [Native.tagOf]

@[simp] theorem ownsKey_relocate (v : Value) (key : String) :
    Native.ownsKey (h.relocate ρ) v key = Native.ownsKey h v key := by
  cases v <;> simp [Native.ownsKey]

@[simp] theorem functionText_relocate (v : Value) :
    Native.functionText (h.relocate ρ) v = Native.functionText h v := by
  cases v with
  | object id =>
    simp only [Native.functionText, object_relocate, Object.kind_relocate, display_relocate]
    cases (h.object id).kind with
    | closure f scope => exact f.text_relocate ρ
    | plain | array | native | error => rfl
  | undefined | null | bool | number | string => simp [Native.functionText]

end Heap

namespace Frame

def relocate (f : Frame) : Frame :=
  ⟨f.name, ρ.line f.line, ρ.column f.column⟩

@[simp] theorem name_relocate (f : Frame) : (f.relocate ρ).name = f.name := rfl

@[simp] theorem relocate_stay : relocate .stay = id := rfl

theorem relocate_innerFrame (name : String) (frames : List Frame) :
    (Eval.innerFrame name frames).relocate ρ = Eval.innerFrame name (frames.map (relocate ρ)) := by
  cases frames with
  | nil => simp [Eval.innerFrame, relocate, ρ.line_zero, ρ.column_zero]
  | cons f fs => rfl

theorem relocate_origin (name : String) (o : Origin) :
    relocate ρ ⟨name, o.span.line, o.span.column⟩ =
      ⟨name, (ρ.origin o).span.line, (ρ.origin o).span.column⟩ := by
  simp [relocate, Relocation.origin, ρ.line_span, ρ.column_span]

end Frame

def Failure.relocate : Failure → Failure
  | .thrown t => .thrown ⟨t.value, t.stack.map (Frame.relocate ρ)⟩
  | e => e

@[simp] theorem Failure.relocate_stay (e : Failure) : e.relocate .stay = e := by
  cases e <;> simp [relocate]

namespace Machine

def relocate (m : Machine) : Machine :=
  { m with heap := m.heap.relocate ρ, frames := m.frames.map (Frame.relocate ρ) }

variable (m : Machine)

@[simp] theorem heap_relocate : (m.relocate ρ).heap = m.heap.relocate ρ := rfl

@[simp] theorem scopes_relocate : (m.relocate ρ).scopes = m.scopes := rfl

@[simp] theorem current_relocate : (m.relocate ρ).current = m.current := rfl

@[simp] theorem frames_relocate : (m.relocate ρ).frames = m.frames.map (Frame.relocate ρ) := rfl

@[simp] theorem joining_relocate : (m.relocate ρ).joining = m.joining := rfl

@[simp] theorem relocate_stay : m.relocate .stay = m := by
  simp [relocate]

@[simp] theorem atCallLimit_relocate : Eval.atCallLimit (m.relocate ρ) = Eval.atCallLimit m := by
  simp only [Eval.atCallLimit, relocate, List.length_map]

end Machine

namespace Eval

def relocated {α : Type} : EStateM.Result Failure Machine α → EStateM.Result Failure Machine α
  | .ok a m => .ok a (m.relocate ρ)
  | .error e m => .error (e.relocate ρ) (m.relocate ρ)

@[simp] theorem relocated_ok {α : Type} (a : α) (m : Machine) :
    relocated ρ (.ok a m) = .ok a (m.relocate ρ) := rfl

@[simp] theorem relocated_error {α : Type} (e : Failure) (m : Machine) :
    relocated ρ (.error e m : EStateM.Result Failure Machine α) =
      .error (e.relocate ρ) (m.relocate ρ) := rfl

@[simp] theorem relocated_stay {α : Type} (r : EStateM.Result Failure Machine α) :
    relocated .stay r = r := by
  cases r <;> simp

end Eval

end ScriptEngine
