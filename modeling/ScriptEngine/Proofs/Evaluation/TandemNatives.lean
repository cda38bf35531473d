import ScriptEngine.Proofs.Evaluation.Tandem
import ScriptEngine.Proofs.Heap.Arrays

/-!
# Native functions in tandem

Coercions, operators and native functions on sound values, with calls that go in tandem. Arrays that
natives make are no longer than the arrays or the argument lists that they are made from.
-/

namespace ScriptEngine

open Eval

/-- The elements that a push counts are those of the machine that it writes to. -/
theorem Native.run_arrayPush (invoke : Invoke) (id : ObjectId) (args : List Value) (m : Machine) :
    Native.arrayPush.run invoke (.object id) args m =
      match (m.heap.object id).elements? with
      | some items =>
        (if maxArrayLength < items.size + args.length then
          throwNamed .rangeError invalidLengthMessage
        else do
          modify fun m => { m with heap := m.heap.modify id (·.append args) }
          return .ofNat (items.size + args.length) : Eval Value) m
      | none => throwNamed .typeError "Array.prototype.push called on a non-array" m := by
  simp only [Native.run, Native.thisArray, bind_assoc]
  simp only [Eval.reading, Bind.bind, EStateM.bind]
  cases (m.heap.object id).elements? <;> rfl

namespace Tandem

def Calls (S : Tandem) (f g : Invoke) : Prop :=
  ∀ w id receiver args frame, S.sound w receiver → (∀ v ∈ args, S.sound w v) →
    S.admits args.length → S.Runs w S.sound (f id receiver args frame) (g id receiver args frame)

namespace Lawful

variable {S : Tandem} {w : S.World} (L : S.Lawful)

include L

theorem arg {args : List Value} (hargs : ∀ v ∈ args, S.sound w v) (i : Nat) :
    S.sound w (Native.arg args i) := by
  rw [Native.arg, List.getD_eq_getElem?_getD]
  cases h : args[i]? with
  | none => exact L.primitive rfl
  | some v => exact hargs v (List.mem_of_getElem? h)

theorem thisArray (v : Value) (method : String) :
    S.Runs w (fun w₁ found => S.admits found.2.size ∧ ∀ v ∈ found.2, S.sound w₁ v)
      (Native.thisArray v method) (Native.thisArray v method) := by
  unfold Native.thisArray
  split
  · refine Runs.ofReading fun m m' hm => ?_
    rw [((L.alike hm).heap _).elements?]
    cases hitems : (m.heap.object _).elements? with
    | none => exact L.throwNamed _ _
    | some items => exact L.pure (L.elements hm hitems)
  · exact L.throwNamed _ _

theorem whileJoining {α : Type} {A : S.World → α → Prop} (id : ObjectId) {x y : Eval α}
    (hx : S.Runs w A x y) : S.Runs w A (Native.whileJoining id x) (Native.whileJoining id y) := by
  intro m m' hm
  refine .always (hx _ _ (L.joining hm (id :: ·))) fun w₁ n n' h => ?_
  exact ⟨h.le, L.joining h.related List.tail, h.current, h.current'⟩

theorem checkBase (access : Access) (base : Value) (key source : String) :
    S.Runs w S.any (Eval.checkBase access base key source)
      (Eval.checkBase access base key source) := by
  unfold Eval.checkBase
  split
  · refine L.bind (L.reads fun m m' hm => ?_) fun _ _ _ _ => L.throwNamed _ _
    exact (L.alike hm).heap.display base
  · exact L.pure trivial

theorem push (f g : Invoke) {receiver : Value} {args : List Value}
    (hargs : ∀ v ∈ args, S.sound w v) :
    S.Runs w S.sound (Native.arrayPush.run f receiver args)
      (Native.arrayPush.run g receiver args) := by
  intro m m' hm
  cases receiver with
  | object id =>
    rw [Native.run_arrayPush, Native.run_arrayPush, ((L.alike hm).heap id).elements?]
    cases hitems : (m.heap.object id).elements? with
    | none => exact L.throwNamed _ _ m m' hm
    | some items =>
      dsimp only
      split
      · exact L.throwNamed _ _ m m' hm
      next hlength =>
        refine .bind L (L.edits hm (.append hitems (Nat.le_of_not_lt hlength) hargs)) ?_
        exact fun w₁ n n' _ h _ => L.pure (L.primitive rfl) n n' h.related
  | undefined | null | bool | number | string => exact L.throwNamed _ _ m m' hm

theorem last {m m' : Machine} (hm : S.related w m m') (id : ObjectId) :
    S.sound w (m.heap.object id).last := by
  have hitems (items : Array Value) (h : (m.heap.object id).kind = .array items) :=
    (L.elements hm
      (by simp only [Object.elements?, h] : (m.heap.object id).elements? = some items)).2
  unfold Object.last
  split
  next items hkind =>
    cases hback : items.back? with
    | none => exact L.primitive rfl
    | some v => exact hitems items hkind v (Array.mem_of_back? hback)
  next => exact L.primitive rfl

theorem runArrayConstructor (f g : Invoke) (receiver : Value) {args : List Value}
    (hargs : ∀ v ∈ args, S.sound w v) (hlength : S.admits args.length) :
    S.Runs w S.sound (Native.arrayConstructor.run f receiver args)
      (Native.arrayConstructor.run g receiver args) := by
  dsimp only [Native.run]
  split
  next x =>
    split
    next n hn =>
      refine L.newArray ?_ ?_
      · rw [Array.size_replicate]
        exact L.admits_of_le (arrayLength?_le hn) L.admits_max
      · intro v hv
        rw [Array.eq_of_mem_replicate hv]
        exact L.primitive rfl
    next => exact L.throwNamed _ _
  next => exact L.newArray hlength (by simpa using hargs)

theorem runArrayPop (f g : Invoke) (receiver : Value) (args : List Value) :
    S.Runs w S.sound (Native.arrayPop.run f receiver args)
      (Native.arrayPop.run g receiver args) := by
  refine L.bind (L.thisArray _ _) fun w₁ found h₁ _ => ?_
  refine L.bind (A := S.sound) ?_ fun w₂ last h₂ hlast => ?_
  · exact L.reading fun m m' hm => ⟨((L.alike hm).heap _).last, L.last hm _⟩
  · refine L.bind (A := S.any) (fun m m' hm => L.edits hm .dropLast) fun w₃ _ h₃ _ => ?_
    exact L.pure (L.sound_mono h₃ hlast)

variable {f g : Invoke} (hc : S.Calls f g)

include hc

theorem callValue (callee : Value) {receiver : Value} (hreceiver : S.sound w receiver)
    {args : List Value} (hargs : ∀ v ∈ args, S.sound w v) (hlength : S.admits args.length) :
    S.Runs w S.sound (Eval.callValue f callee receiver args)
      (Eval.callValue g callee receiver args) := by
  refine Runs.ofReading fun m m' hm => ?_
  rw [(L.alike hm).heap.callable?]
  split
  · refine L.bind (L.reads fun m m' hm => ?_) fun _ _ _ _ => L.throwNamed _ _
    exact (L.alike hm).heap.display callee
  · refine Runs.ofReading fun m m' hm => ?_
    rw [(L.alike hm).heap.functionName, (L.alike hm).frames]
    exact hc _ _ _ _ _ hreceiver hargs hlength

theorem toPrimitive {v : Value} (hv : S.sound w v) :
    S.Runs w S.sound (Eval.toPrimitive f v) (Eval.toPrimitive g v) := by
  unfold Eval.toPrimitive
  split
  · refine L.bind (L.reads fun m m' hm => (L.alike hm).heap.get _ _) fun w₁ method h₁ _ => ?_
    refine L.bind (L.reads fun m m' hm => (L.alike hm).heap.callable? _) fun w₂ _ h₂ _ => ?_
    split
    · have hv₂ := L.sound_mono (L.trans h₁ h₂) hv
      refine L.bind (L.callValue hc method hv₂ nofun (L.few (Nat.zero_le 3))) fun w₃ v h₃ hv => ?_
      split
      · exact L.throwNamed _ _
      · exact L.pure hv
    · exact L.throwNamed _ _
  · exact L.pure hv

theorem toNumber {v : Value} (hv : S.sound w v) :
    S.Runs w S.any (Eval.toNumber f v) (Eval.toNumber g v) := by
  unfold Eval.toNumber
  split
  · exact L.pure trivial
  · exact L.bind (L.toPrimitive hc hv) fun _ _ _ _ => L.pure trivial

theorem toText {v : Value} (hv : S.sound w v) :
    S.Runs w S.any (Eval.toText f v) (Eval.toText g v) := by
  unfold Eval.toText
  split
  · exact L.pure trivial
  · exact L.bind (L.toPrimitive hc hv) fun _ _ _ _ => L.pure trivial

theorem looseEquals {a b : Value} (ha : S.sound w a) (hb : S.sound w b) :
    S.Runs w S.any (Eval.looseEquals f a b) (Eval.looseEquals g a b) := by
  unfold Eval.looseEquals
  split
  · exact L.pure trivial
  · split
    · exact L.pure trivial
    · exact L.bind (L.toPrimitive hc ha) fun _ _ _ _ => L.pure trivial
  · split
    · exact L.pure trivial
    · exact L.bind (L.toPrimitive hc hb) fun _ _ _ _ => L.pure trivial
  · exact L.pure trivial

theorem primitives {α : Type} {A : S.World → α → Prop} {left right : Value}
    (hleft : S.sound w left) (hright : S.sound w right) {k : Value → Value → Eval α}
    (hk : ∀ w₁ a b, S.Runs w₁ A (k a b) (k a b)) :
    S.Runs w A (Eval.toPrimitive f left >>= fun a => Eval.toPrimitive f right >>= k a)
      (Eval.toPrimitive g left >>= fun a => Eval.toPrimitive g right >>= k a) :=
  L.bind (L.toPrimitive hc hleft) fun _ _ h₁ _ =>
    L.bind (L.toPrimitive hc (L.sound_mono h₁ hright)) fun _ _ _ _ => hk _ _ _

theorem numbers {left right : Value} (hleft : S.sound w left) (hright : S.sound w right)
    {k : Float → Float → Eval Value} (hk : ∀ w₁ x y, S.Runs w₁ S.sound (k x y) (k x y)) :
    S.Runs w S.sound (Eval.toNumber f left >>= fun x => Eval.toNumber f right >>= k x)
      (Eval.toNumber g left >>= fun x => Eval.toNumber g right >>= k x) :=
  L.bind (L.toNumber hc hleft) fun _ _ h₁ _ =>
    L.bind (L.toNumber hc (L.sound_mono h₁ hright)) fun _ _ _ _ => hk _ _ _

theorem ordered (accepts : Option Ordering → Bool) {left right : Value} (hleft : S.sound w left)
    (hright : S.sound w right) :
    S.Runs w S.sound (Eval.ordered f accepts left right) (Eval.ordered g accepts left right) := by
  have hcompare : S.Runs w S.any (Eval.compareValues f left right)
      (Eval.compareValues g left right) := by
    refine L.primitives hc hleft hright fun w₁ a b => ?_
    split <;> exact L.pure trivial
  exact L.bind hcompare fun _ _ _ _ => L.pure (L.primitive rfl)

theorem binary (op : BinaryOp) {left right : Value} (hleft : S.sound w left)
    (hright : S.sound w right) :
    S.Runs w S.sound (Eval.binary f op left right) (Eval.binary g op left right) := by
  cases op <;> dsimp only [Eval.binary]
  case add =>
    refine L.primitives hc hleft hright fun w₁ a b => ?_
    split <;> exact L.pure (L.primitive rfl)
  case sub | mul | div | rem | exp =>
    exact L.numbers hc hleft hright fun _ _ _ => L.pure (L.primitive rfl)
  case looseEq | looseNe =>
    exact L.bind (L.looseEquals hc hleft hright) fun _ _ _ _ => L.pure (L.primitive rfl)
  case strictEq | strictNe => exact L.pure (L.primitive rfl)
  case less | lessEq | greater | greaterEq => exact L.ordered hc _ hleft hright
  case bitAnd | bitOr | bitXor | shiftLeft | shiftRight =>
    exact L.numbers hc hleft hright fun _ _ _ => L.pure (L.primitive rfl)
  case shiftRightZero => exact L.numbers hc hleft hright fun _ _ _ => L.pure (L.primitive rfl)

theorem unary (op : UnaryOp) {v : Value} (hv : S.sound w v) :
    S.Runs w S.sound (Eval.unary f op v) (Eval.unary g op v) := by
  cases op with
  | not => exact L.pure (L.primitive rfl)
  | neg | plus | bitNot =>
    exact L.bind (L.toNumber hc hv) fun _ _ _ _ => L.pure (L.primitive rfl)
  | typeOf =>
    refine L.bind (L.reads fun m m' hm => (L.alike hm).heap.typeOf v) fun _ _ _ _ => ?_
    exact L.pure (L.primitive rfl)

theorem setProperty (base : Value) (key : String) {v : Value} (hv : S.sound w v) :
    S.Runs w S.any (Eval.setProperty f base key v) (Eval.setProperty g base key v) := by
  unfold Eval.setProperty
  split
  · refine L.bind (L.reads fun m m' hm => ((L.alike hm).heap _).isArray) fun w₁ isArray h₁ _ => ?_
    have hv₁ := L.sound_mono h₁ hv
    split
    · exact L.bind (L.toNumber hc hv₁) fun _ _ _ _ => L.writeProperty _ _ (L.primitive rfl)
    · exact L.writeProperty _ _ hv₁
  · exact L.pure trivial

theorem positionArg {v : Value} (hv : S.sound w v) (length missing : Nat) :
    S.Runs w S.any (Native.positionArg f v length missing)
      (Native.positionArg g v length missing) := by
  unfold Native.positionArg
  split
  · exact L.pure trivial
  · exact L.bind (L.toNumber hc hv) fun _ _ _ _ => L.pure trivial

theorem sliceBounds {args : List Value} (hargs : ∀ v ∈ args, S.sound w v) (length : Nat) :
    S.Runs w S.any (Native.sliceBounds f args length) (Native.sliceBounds g args length) := by
  refine L.bind (L.positionArg hc (L.arg hargs 0) _ _) fun w₁ start h₁ _ => ?_
  refine L.bind (L.positionArg hc (L.arg (L.all_mono h₁ hargs) 1) _ _) fun _ _ _ _ => ?_
  exact L.pure trivial

theorem elementTexts {vs : List Value} (hvs : ∀ v ∈ vs, S.sound w v) :
    S.Runs w S.any (Native.elementTexts f vs) (Native.elementTexts g vs) := by
  induction vs generalizing w with
  | nil => exact L.pure trivial
  | cons v vs ih =>
    rw [List.forall_mem_cons] at hvs
    dsimp only [Native.elementTexts]
    have hrest (w₁ : S.World) (h₁ : S.le w w₁) (text : String) :
        S.Runs w₁ S.any (Native.elementTexts f vs >>= fun texts => Pure.pure (text :: texts))
          (Native.elementTexts g vs >>= fun texts => Pure.pure (text :: texts)) :=
      L.bind (ih (L.all_mono h₁ hvs.2)) fun _ _ _ _ => L.pure trivial
    split
    · exact L.bind (A := S.any) (L.pure trivial) fun w₁ text h₁ _ => hrest w₁ h₁ text
    · exact L.bind (L.toText hc hvs.1) fun w₁ text h₁ _ => hrest w₁ h₁ text

theorem joinArray (id : ObjectId) (separator : String) :
    S.Runs w S.any (Native.joinArray f id separator) (Native.joinArray g id separator) := by
  refine Runs.ofReading fun m m' hm => ?_
  rw [(L.alike hm).joining]
  split
  · exact L.pure trivial
  · refine Runs.ofReading fun m m' hm => ?_
    rw [((L.alike hm).heap id).elements?]
    have hitems : ∀ v ∈ ((m.heap.object id).elements?.getD #[]).toList, S.sound w v := by
      cases hfound : (m.heap.object id).elements? with
      | none => exact nofun
      | some items => exact fun v hv => (L.elements hm hfound).2 v (Array.mem_toList_iff.mp hv)
    exact L.bind (L.whileJoining id (L.elementTexts hc hitems)) fun _ _ _ _ => L.pure trivial

theorem mapElements {callback array : Value} (harray : S.sound w array) (i : Nat) {vs : List Value}
    (hvs : ∀ v ∈ vs, S.sound w v) :
    S.Runs w (S.values vs.length) (Native.mapElements f callback array i vs)
      (Native.mapElements g callback array i vs) := by
  induction vs generalizing w i with
  | nil => exact L.pure ⟨rfl, nofun⟩
  | cons v vs ih =>
    rw [List.forall_mem_cons] at hvs
    have hargs : ∀ u ∈ [v, .ofNat i, array], S.sound w u := by
      simp only [List.forall_mem_cons]
      exact ⟨hvs.1, L.primitive rfl, harray, nofun⟩
    refine L.bind (L.callValue hc callback (L.primitive rfl) hargs (L.few (Nat.le_refl 3)))
      fun w₁ result h₁ hresult => ?_
    refine L.bind (ih (L.sound_mono h₁ harray) (i + 1) (L.all_mono h₁ hvs.2))
      fun w₂ results h₂ hrest => ?_
    refine L.pure ⟨congrArg (· + 1) hrest.1, ?_⟩
    rw [List.forall_mem_cons]
    exact ⟨L.sound_mono h₂ hresult, hrest.2⟩

theorem sumArgs (acc : Float) {vs : List Value} (hvs : ∀ v ∈ vs, S.sound w v) :
    S.Runs w S.any (Native.sumArgs f acc vs) (Native.sumArgs g acc vs) := by
  induction vs generalizing w acc with
  | nil => exact L.pure trivial
  | cons v vs ih =>
    rw [List.forall_mem_cons] at hvs
    exact L.bind (L.toNumber hc hvs.1) fun _ x h₁ _ => ih (acc + x) (L.all_mono h₁ hvs.2)

theorem errorPart (id : ObjectId) (key missing : String) :
    S.Runs w S.any (Native.errorPart f id key missing) (Native.errorPart g id key missing) := by
  refine L.bind (A := S.sound) ?_ fun w₁ v h₁ hv => ?_
  · exact L.reading fun m m' hm => ⟨(L.alike hm).heap.get id key, L.get hm id key⟩
  · split
    · exact L.pure trivial
    · exact L.toText hc hv

theorem runHost (hadmits : ∀ n, S.admits n) (host : HostFunction) {receiver : Value}
    (hreceiver : S.sound w receiver) {args : List Value} (hargs : ∀ v ∈ args, S.sound w v) :
    S.Runs w S.sound (Native.runHost f host receiver args)
      (Native.runHost g host receiver args) := by
  have harg := L.arg hargs
  have hstrings (texts : List String) (w₁ : S.World) :
      ∀ v ∈ (texts.map Value.string).toArray, S.sound w₁ v := by
    simp only [List.mem_toArray, List.mem_map]
    rintro _ ⟨text, -, rfl⟩
    exact L.primitive rfl
  cases host with
  | sum => exact L.bind (L.sumArgs hc _ hargs) fun _ _ _ _ => L.pure (L.primitive rfl)
  | fail => exact L.throwNamed _ _
  | raise => exact L.throwValue (harg 0)
  | internal => exact L.throw nofun
  | apply =>
    exact L.callValue hc _ (harg 1) (fun v hv => hargs v (List.mem_of_mem_drop hv)) (hadmits _)
  | self => exact L.pure hreceiver
  | same => exact L.pure (L.primitive rfl)
  | args => exact L.newArray (hadmits _) (by simpa using hargs)
  | stack =>
    refine L.bind (L.reads fun m m' hm => (L.alike hm).frames) fun w₁ frames _ _ => ?_
    refine L.newArray (hadmits _) ?_
    simp only [List.mem_toArray, List.mem_map]
    rintro _ ⟨frame, -, rfl⟩
    exact L.primitive rfl
  | prim => exact L.toPrimitive hc (harg 0)
  | str | key => exact L.bind (L.toText hc (harg 0)) fun _ _ _ _ => L.pure (L.primitive rfl)
  | loose =>
    exact L.bind (L.looseEquals hc (harg 0) (harg 1)) fun _ _ _ _ => L.pure (L.primitive rfl)
  | display =>
    refine L.bind (L.reads fun m m' hm => (L.alike hm).heap.display _) fun _ _ _ _ => ?_
    exact L.pure (L.primitive rfl)
  | peek => exact L.bind (L.toText hc (harg 0)) fun _ name _ _ => L.lookupOr name
  | getProperty => exact L.bind (L.toText hc (harg 1)) fun _ key _ _ => L.getProperty _ key
  | setProperty =>
    refine L.bind (L.toText hc (harg 1)) fun w₁ key h₁ _ => ?_
    refine L.bind (L.setProperty hc _ key (L.sound_mono h₁ (harg 2))) fun w₂ _ h₂ _ => ?_
    exact L.pure (L.sound_mono (L.trans h₁ h₂) (harg 0))
  | keys =>
    refine L.bind (L.reads fun m m' hm => ?_) fun w₁ keys _ _ => ?_
    · cases Native.arg args 0 with
      | object id => exact ((L.alike hm).heap id).keys
      | undefined | null | bool | number | string => rfl
    · exact L.newArray (hadmits _) (hstrings keys w₁)
  | makeError =>
    refine L.bind (L.toText hc (harg 0)) fun w₁ name h₁ _ => ?_
    exact L.bind (L.toText hc (L.sound_mono h₁ (harg 1))) fun _ _ _ _ => L.newError _ _

theorem ofText {v : Value} (hv : S.sound w v) {k : String → Value}
    (hk : ∀ text, (k text).isObject = false) :
    S.Runs w S.sound (do return k (← Eval.toText f v)) (do return k (← Eval.toText g v)) :=
  L.bind (L.toText hc hv) fun _ text _ _ => L.pure (L.primitive (hk text))

theorem runArrayJoin (receiver : Value) {args : List Value} (hargs : ∀ v ∈ args, S.sound w v) :
    S.Runs w S.sound (Native.arrayJoin.run f receiver args)
      (Native.arrayJoin.run g receiver args) := by
  dsimp only [Native.run]
  refine L.bind (L.thisArray _ _) fun w₁ found h₁ _ => ?_
  have hseparator := L.sound_mono h₁ (L.arg hargs 0)
  have hjoin (w₂ : S.World) (separator : String) :
      S.Runs w₂ S.sound (do return .string (← Native.joinArray f found.1 separator))
        (do return .string (← Native.joinArray g found.1 separator)) :=
    L.bind (L.joinArray hc _ _) fun _ _ _ _ => L.pure (L.primitive rfl)
  split
  next => exact L.bind (A := S.any) (L.pure trivial) fun w₂ separator _ _ => hjoin w₂ separator
  next => exact L.bind (L.toText hc hseparator) fun w₂ separator _ _ => hjoin w₂ separator

theorem runArraySlice (receiver : Value) {args : List Value} (hargs : ∀ v ∈ args, S.sound w v) :
    S.Runs w S.sound (Native.arraySlice.run f receiver args)
      (Native.arraySlice.run g receiver args) := by
  refine L.bind (L.thisArray _ _) fun w₁ found h₁ hfound => ?_
  refine L.bind (L.sliceBounds hc (L.all_mono h₁ hargs) _) fun w₂ bounds h₂ _ => ?_
  refine L.newArray (L.admits_of_le ?_ hfound.1) fun v hv => ?_
  · rw [Array.size_extract]
    omega
  · obtain ⟨i, hi, rfl⟩ := Array.mem_extract_iff_getElem.mp hv
    exact L.sound_mono h₂ (hfound.2 _ (Array.getElem_mem _))

theorem runArrayMap {receiver : Value} (hreceiver : S.sound w receiver) (args : List Value) :
    S.Runs w S.sound (Native.arrayMap.run f receiver args)
      (Native.arrayMap.run g receiver args) := by
  refine L.bind (L.thisArray _ _) fun w₁ found h₁ hfound => ?_
  have hitems : ∀ v ∈ found.2.toList, S.sound w₁ v := by simpa using hfound.2
  refine L.bind (L.mapElements hc (L.sound_mono h₁ hreceiver) _ hitems)
    fun w₂ mapped _ hmapped => ?_
  refine L.newArray ?_ (by simpa using hmapped.2)
  rw [List.size_toArray, hmapped.1, Array.length_toList]
  exact hfound.1

theorem runArrayForEach {receiver : Value} (hreceiver : S.sound w receiver) (args : List Value) :
    S.Runs w S.sound (Native.arrayForEach.run f receiver args)
      (Native.arrayForEach.run g receiver args) := by
  refine L.bind (L.thisArray _ _) fun w₁ found h₁ hfound => ?_
  have hitems : ∀ v ∈ found.2.toList, S.sound w₁ v := by simpa using hfound.2
  refine L.bind (L.mapElements hc (L.sound_mono h₁ hreceiver) _ hitems) fun _ _ _ _ => ?_
  exact L.pure (L.primitive rfl)

theorem runStringIndexOf {receiver : Value} (hreceiver : S.sound w receiver) {args : List Value}
    (hargs : ∀ v ∈ args, S.sound w v) :
    S.Runs w S.sound (Native.stringIndexOf.run f receiver args)
      (Native.stringIndexOf.run g receiver args) := by
  dsimp only [Native.run]
  refine L.bind (L.toText hc hreceiver) fun w₁ s h₁ _ => ?_
  refine L.bind (L.toText hc (L.sound_mono h₁ (L.arg hargs 0))) fun w₂ needle h₂ _ => ?_
  have hstart := L.sound_mono (L.trans h₁ h₂) (L.arg hargs 1)
  split
  · refine L.bind (A := S.any) (L.pure trivial) fun w₃ start _ _ => ?_
    split <;> exact L.pure (L.primitive rfl)
  · refine L.bind (L.toNumber hc hstart) fun w₃ x _ _ => ?_
    refine L.bind (A := S.any) (L.pure trivial) fun w₄ start _ _ => ?_
    split <;> exact L.pure (L.primitive rfl)

theorem runNative (native : Native) (hhost : ∀ host, native = .host host → ∀ n, S.admits n)
    {receiver : Value} (hreceiver : S.sound w receiver) {args : List Value}
    (hargs : ∀ v ∈ args, S.sound w v) (hlength : S.admits args.length) :
    S.Runs w S.sound (native.run f receiver args) (native.run g receiver args) := by
  have harg := L.arg hargs
  cases native with
  | objectConstructor =>
    dsimp only [Native.run]
    split
    next id heq => exact L.pure (heq ▸ harg 0)
    next => exact L.bind L.newPlain fun _ _ _ hid => L.pure hid.1
  | arrayConstructor => exact L.runArrayConstructor f g receiver hargs hlength
  | stringConstructor =>
    dsimp only [Native.run]
    split
    next => exact L.pure (L.primitive rfl)
    next v vs => exact L.ofText hc (hargs v List.mem_cons_self) fun _ => rfl
  | numberConstructor =>
    dsimp only [Native.run]
    split
    next => exact L.pure (L.primitive rfl)
    next v vs =>
      refine L.bind (L.toNumber hc (hargs v List.mem_cons_self)) fun _ _ _ _ => ?_
      exact L.pure (L.primitive rfl)
  | booleanConstructor => exact L.pure (L.primitive rfl)
  | identity => exact L.pure hreceiver
  | errorConstructor =>
    dsimp only [Native.run]
    split
    next => exact L.newError _ _
    next => exact L.bind (L.toText hc (harg 0)) fun _ _ _ _ => L.newError _ _
  | arrayIsArray =>
    refine L.bind (L.reads fun m m' hm => ?_) fun _ _ _ _ => L.pure (L.primitive rfl)
    cases Native.arg args 0 with
    | object id => exact ((L.alike hm).heap id).elements?
    | undefined | null | bool | number | string => rfl
  | objectToString =>
    refine L.bind (L.reads fun m m' hm => (L.alike hm).heap.tagOf _) fun _ _ _ _ => ?_
    exact L.pure (L.primitive rfl)
  | functionToString =>
    refine L.bind (L.reads fun m m' hm => (L.alike hm).heap.functionText _) fun _ _ _ _ => ?_
    exact L.pure (L.primitive rfl)
  | numberIsNaN | numberIsFinite | numberIsInteger =>
    dsimp only [Native.run]
    split <;> exact L.pure (L.primitive rfl)
  | numberParseFloat => exact L.ofText hc (harg 0) fun _ => rfl
  | stringToUpperCase | stringToLowerCase | primitiveToString =>
    exact L.ofText hc hreceiver fun _ => rfl
  | numberParseInt =>
    refine L.bind (L.toText hc (harg 0)) fun w₁ text h₁ _ => ?_
    have hradix := L.sound_mono h₁ (harg 1)
    split
    next => exact L.pure (L.primitive rfl)
    next => exact L.bind (L.toNumber hc hradix) fun _ _ _ _ => L.pure (L.primitive rfl)
  | hasOwnProperty =>
    refine L.bind (L.toText hc (harg 0)) fun w₁ key _ _ => ?_
    refine L.bind (L.reads fun m m' hm => (L.alike hm).heap.ownsKey _ _) fun _ _ _ _ => ?_
    exact L.pure (L.primitive rfl)
  | arrayPush => exact L.push f g hargs
  | arrayPop => exact L.runArrayPop f g receiver args
  | arrayJoin => exact L.runArrayJoin hc receiver hargs
  | arrayToString =>
    refine L.bind (L.thisArray _ _) fun _ _ _ _ => ?_
    exact L.bind (L.joinArray hc _ _) fun _ _ _ _ => L.pure (L.primitive rfl)
  | arrayIndexOf =>
    dsimp only [Native.run]
    refine L.bind (L.thisArray _ _) fun w₁ found _ _ => ?_
    split <;> exact L.pure (L.primitive rfl)
  | arrayIncludes =>
    exact L.bind (L.thisArray _ _) fun _ _ _ _ => L.pure (L.primitive rfl)
  | arraySlice => exact L.runArraySlice hc receiver hargs
  | arrayMap => exact L.runArrayMap hc hreceiver args
  | arrayForEach => exact L.runArrayForEach hc hreceiver args
  | stringCharAt =>
    refine L.bind (L.toText hc hreceiver) fun w₁ s h₁ _ => ?_
    have hposition := L.sound_mono h₁ (harg 0)
    split
    next => exact L.pure (L.primitive rfl)
    next => exact L.bind (L.toNumber hc hposition) fun _ _ _ _ => L.pure (L.primitive rfl)
  | stringIndexOf => exact L.runStringIndexOf hc hreceiver hargs
  | stringSlice =>
    refine L.bind (L.toText hc hreceiver) fun w₁ s h₁ _ => ?_
    refine L.bind (L.sliceBounds hc (L.all_mono h₁ hargs) _) fun _ _ _ _ => ?_
    exact L.pure (L.primitive rfl)
  | errorToString =>
    dsimp only [Native.run]
    split
    · refine L.bind (L.errorPart hc _ _ _) fun _ _ _ _ => ?_
      exact L.bind (L.errorPart hc _ _ _) fun _ _ _ _ => L.pure (L.primitive rfl)
    · exact L.throwNamed _ _
  | host host => exact L.runHost hc (hhost host rfl) host hreceiver hargs

end Lawful

end Tandem

end ScriptEngine
