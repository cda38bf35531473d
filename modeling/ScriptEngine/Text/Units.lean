/-!
# UTF-16 code units

Strings are counted, cut and ordered by their UTF-16 code units. A cut through a surrogate pair
leaves a lone surrogate, and reading it back gives the replacement character.
-/

namespace ScriptEngine.Text

abbrev Unit16 := UInt16

namespace Unit16

def isLead (u : Unit16) : Bool :=
  0xD800 ≤ u && u < 0xDC00

def isTrail (u : Unit16) : Bool :=
  0xDC00 ≤ u && u < 0xE000

def alone (u : Unit16) : Char :=
  if isLead u || isTrail u then '\uFFFD' else Char.ofNat u.toNat

def joined (u v : Unit16) : Char :=
  Char.ofNat (0x10000 + (u.toNat - 0xD800) * 0x400 + (v.toNat - 0xDC00))

end Unit16

def charUnits (c : Char) : List Unit16 :=
  if c.toNat < 0x10000 then
    [c.toNat.toUInt16]
  else
    [(0xD800 + (c.toNat - 0x10000) / 0x400).toUInt16,
      (0xDC00 + (c.toNat - 0x10000) % 0x400).toUInt16]

def units (s : String) : List Unit16 :=
  s.toList.flatMap charUnits

def unitLength (s : String) : Nat :=
  s.foldl (fun n c => n + if c.toNat < 0x10000 then 1 else 2) 0

/-- The unit at an index of a text, found without writing out the units before it. -/
def unitAt? : Nat → List Char → Option Unit16
  | _, [] => none
  | i, c :: cs =>
    if c.toNat < 0x10000 then
      match i with
      | 0 => some c.toNat.toUInt16
      | i + 1 => unitAt? i cs
    else
      match i with
      | 0 | 1 => (charUnits c)[i]?
      | i + 2 => unitAt? i cs

/-- Reads units back: pairs are joined and lone surrogates replaced. -/
def decodeUnits : List Unit16 → List Char
  | [] => []
  | [u] => [u.alone]
  | u :: v :: rest =>
    if u.isLead && v.isTrail then u.joined v :: decodeUnits rest
    else u.alone :: decodeUnits (v :: rest)

def ofUnits (us : List Unit16) : String :=
  String.ofList (decodeUnits us)

def compareUnits : List Unit16 → List Unit16 → Ordering
  | [], [] => .eq
  | [], _ :: _ => .lt
  | _ :: _, [] => .gt
  | u :: us, v :: vs =>
    if u < v then .lt
    else if v < u then .gt
    else compareUnits us vs

theorem length_flatMap_charUnits (cs : List Char) (n : Nat) :
    cs.foldl (fun n c => n + if c.toNat < 0x10000 then 1 else 2) n =
      n + (cs.flatMap charUnits).length := by
  induction cs generalizing n with
  | nil => simp
  | cons c cs ih =>
    rw [List.foldl_cons, ih, List.flatMap_cons, List.length_append, ← Nat.add_assoc]
    congr 2
    unfold charUnits
    split <;> rfl

theorem unitLength_eq (s : String) : unitLength s = (units s).length := by
  rw [unitLength, String.foldl_eq_foldl_toList, length_flatMap_charUnits, Nat.zero_add]
  rfl

theorem unitAt?_eq (i : Nat) (cs : List Char) : unitAt? i cs = (cs.flatMap charUnits)[i]? := by
  induction cs generalizing i with
  | nil => simp [unitAt?]
  | cons c cs ih =>
    unfold unitAt?
    split
    next h =>
      have hunits : charUnits c = [c.toNat.toUInt16] := by simp [charUnits, h]
      cases i with
      | zero => simp [hunits]
      | succ i => simp [hunits, ih]
    next h =>
      obtain ⟨u, v, hunits⟩ : ∃ u v, charUnits c = [u, v] :=
        ⟨_, _, by simp only [charUnits, h]; rfl⟩
      match i with
      | 0 => simp [hunits]
      | 1 => simp [hunits]
      | i + 2 => simp [hunits, ih]

end ScriptEngine.Text
