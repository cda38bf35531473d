import ScriptEngine.Json.Structs
import ScriptEngine.Proofs.Heap.IndexKeys
import ScriptEngine.Proofs.Json.Documents

/-!
# What a library for JSON is documented to do

Strings are written between quotes with escapes, booleans and null as words, unsigned integers with
their digits, and a struct as an object with its fields in their order. What is read need not look
like what is written: any blanks, escapes and order of members will do. An object without members is
read as the defaults, a member that is no field changes nothing, and one that names a field gives it
its value. The library that goes through documents does all that.
-/

namespace ScriptEngine.Json

/-- The documented behaviour of a library for JSON. -/
structure Library.Documented (L : Library) : Prop where
  writes_text (s : String) : ∃ text raw, L.write .text s = some text ∧
    text.toList = '"' :: (raw ++ ['"']) ∧ Denotes raw s.toList
  writes_flag (b : Bool) : L.write .flag b = some (if b then "true" else "false")
  writes_word (n : UInt64) : L.write .word n = some (String.ofList (Nat.toDigits 10 n.toNat))
  writes_none (type : FieldType) : L.write (.option type) none = some "null"
  writes_some (type : FieldType) (x : type.Value) : L.write (.option type) (some x) = L.write type x
  /-- The texts of the fields stand behind their names, without blanks. -/
  writes_struct {ι : Type} [DecidableEq ι] (s : Struct ι) (r : s.Record)
    (members : List (String × String)) :
    List.Forall₂ (fun i (m : String × String) =>
        L.write .text (s.name i) = some m.1 ∧ L.write (s.type i) (r i) = some m.2)
          s.fields members →
      L.writeStruct s r =
        some ("\x7b" ++ ",".intercalate (members.map fun m => m.1 ++ ":" ++ m.2) ++ "\x7d")
  reads_text {raw : List Char} {text s : String} : SpellsPadded (.string raw) text.toList →
    Denotes raw s.toList → L.read .text text = some s
  reads_flag {b : Bool} {text : String} : SpellsPadded (.bool b) text.toList →
    L.read .flag text = some b
  reads_word {n : UInt64} {text : String} :
    SpellsPadded (.number (Nat.toDigits 10 n.toNat)) text.toList → L.read .word text = some n
  reads_null (type : FieldType) {text : String} : SpellsPadded .null text.toList →
    L.read (.option type) text = some none
  reads_some (type : FieldType) {j : Json} {text : String} :
      SpellsPadded j text.toList → j ≠ .null →
    L.read (.option type) text = (L.read type text).map some
  /-- Fields that an object leaves out have their defaults. -/
  reads_empty {ι : Type} [DecidableEq ι] (s : Struct ι) {text : String} :
    SpellsPadded (.object []) text.toList → L.readStruct s text = some s.default
  /-- Members that are no fields are ignored. -/
  reads_other {ι : Type} [DecidableEq ι] (s : Struct ι) {key name : List Char} {j : Json}
    {members : List (List Char × Json)} {text rest : String} :
    SpellsPadded (.object ((key, j) :: members)) text.toList →
    SpellsPadded (.object members) rest.toList →
    Denotes key name → (∀ i, name ≠ (s.name i).toList) → L.readStruct s text = L.readStruct s rest
  /-- A member that names a field gives its value to the field, if no other member names it. -/
  reads_field {ι : Type} [DecidableEq ι] (s : Struct ι) {key : List Char} {j : Json}
    {members : List (List Char × Json)} {text rest value : String} {i : ι} {x : (s.type i).Value}
    {r : s.Record} :
    SpellsPadded (.object ((key, j) :: members)) text.toList →
    SpellsPadded (.object members) rest.toList → L.readStruct s rest = some r →
    Denotes key (s.name i).toList →
    (∀ m ∈ members, ∃ name, Denotes m.1 name ∧ name ≠ (s.name i).toList) →
    SpellsPadded j value.toList → L.read (s.type i) value = some x →
      L.readStruct s text = some (r.set i x)

section Texts

theorem text?_of_denotes {raw : List Char} {s : String} (h : Denotes raw s.toList) :
    (Json.string raw).text? = some s := by
  change (unescape? raw).map String.ofList = some s
  rw [unescape?_of_denotes h, Option.map_some, String.ofList_toList]

theorem isDigit_of_mem_toDigits {n : ℕ} {d : Char} (hd : d ∈ Nat.toDigits 10 n) :
    Json.isDigit d = true :=
  Nat.isDigit_of_mem_toDigits (by norm_num) (by norm_num) hd

theorem foldl_toDigits (n : ℕ) :
    (Nat.toDigits 10 n).foldl (fun n c => n * 10 + (c.toNat - 48)) 0 = n := by
  have hswap : (fun (n : ℕ) (c : Char) => n * 10 + (c.toNat - 48)) =
      fun n c => 10 * n + (c.toNat - '0'.toNat) := by
    funext n c
    rw [mul_comm]
    rfl
  rw [hswap]
  exact Nat.ofDigitChars_ten_toDigits

theorem word64?_toDigits (n : UInt64) :
    (Json.number (Nat.toDigits 10 n.toNat)).word64? = some n := by
  have hdigits : (Nat.toDigits 10 n.toNat).all Json.isDigit = true :=
    List.all_eq_true.2 fun d hd => isDigit_of_mem_toDigits hd
  unfold Json.word64?
  simp only [hdigits, if_true, foldl_toDigits]
  rw [if_pos n.toNat_lt]
  exact congrArg some (UInt64.ofNat_toNat)

end Texts

namespace Struct

variable {ι : Type} {s : Struct ι}

section Records

variable [DecidableEq ι]

@[simp] theorem Record.set_self (r : s.Record) (i : ι) (x : (s.type i).Value) : r.set i x i = x :=
  dif_pos rfl

theorem Record.set_of_ne (r : s.Record) {i j : ι} (h : i ≠ j) (x : (s.type i).Value) :
    r.set i x j = r j :=
  dif_neg h

@[simp] theorem Draft.set_self (d : s.Draft) (i : ι) (x : (s.type i).Value) :
    d.set i x i = some x :=
  dif_pos rfl

theorem Draft.set_of_ne (d : s.Draft) {i j : ι} (h : i ≠ j) (x : (s.type i).Value) :
    d.set i x j = d j :=
  dif_neg h

theorem Draft.complete_set (d : s.Draft) (i : ι) (x : (s.type i).Value) :
    (d.set i x).complete = d.complete.set i x := by
  funext j
  by_cases h : i = j
  · subst h
    simp [Draft.complete]
  · rw [Record.set_of_ne _ h, Draft.complete, Draft.set_of_ne d h, Draft.complete]

theorem Draft.set_comm (d : s.Draft) {i j : ι} (h : i ≠ j) (x : (s.type i).Value)
    (y : (s.type j).Value) : (d.set i x).set j y = (d.set j y).set i x := by
  funext k
  by_cases hj : j = k
  · subst hj
    rw [Draft.set_self, Draft.set_of_ne _ h, Draft.set_self]
  · rw [Draft.set_of_ne _ hj]
    by_cases hi : i = k
    · subst hi
      rw [Draft.set_self, Draft.set_self]
    · rw [Draft.set_of_ne _ hi, Draft.set_of_ne _ hi, Draft.set_of_ne _ hj]

end Records

section Members

theorem find?_name (i : ι) : (s.fields.find? fun k => s.name k = s.name i) = some i := by
  cases hfound : s.fields.find? fun k => s.name k = s.name i with
  | none =>
    have hnot := List.find?_eq_none.1 hfound i (s.mem_fields i)
    simp at hnot
  | some k =>
    have hname : s.name k = s.name i := by simpa using List.find?_some hfound
    rw [List.inj_on_of_nodup_map s.distinct (s.mem_fields k) (s.mem_fields i) hname]

variable [DecidableEq ι] {d : s.Draft} {i : ι}

theorem put?_of_name (hd : d i = none) (j : Json) :
    d.put? (s.name i) j = (value? (s.type i) j).map (d.set i) := by
  unfold Draft.put?
  rw [find?_name]
  dsimp only
  rw [hd]
  rfl

theorem put?_of_other {key : String} (h : ∀ i, key ≠ s.name i) (j : Json) :
    d.put? key j = some d := by
  have hnone : (s.fields.find? fun i => s.name i = key) = none := by
    rw [List.find?_eq_none]
    intro i _ hi
    exact h i (of_decide_eq_true hi).symm
  unfold Draft.put?
  rw [hnone]

theorem put?_set {key : String} (h : key ≠ s.name i) (j : Json) (x : (s.type i).Value) :
    (d.set i x).put? key j = (d.put? key j).map fun d => d.set i x := by
  unfold Draft.put?
  cases hfound : s.fields.find? fun k => s.name k = key with
  | none => rfl
  | some k =>
    have hk : i ≠ k := by
      rintro rfl
      have hname : s.name i = key := by simpa using List.find?_some hfound
      exact h hname.symm
    dsimp only
    rw [Draft.set_of_ne d hk]
    split
    · rfl
    · cases value? (s.type k) j with
      | none => rfl
      | some y => exact congrArg some (d.set_comm hk x y)

theorem putAll?_set {members : List (List Char × Json)}
    (h : ∀ m ∈ members, ∃ name, Denotes m.1 name ∧ name ≠ (s.name i).toList) (d : s.Draft)
    (x : (s.type i).Value) :
    (d.set i x).putAll? members = (d.putAll? members).map fun d => d.set i x := by
  induction members generalizing d with
  | nil => rfl
  | cons m members ih =>
    obtain ⟨key, j⟩ := m
    obtain ⟨⟨name, hname, hother⟩, hmembers⟩ := List.forall_mem_cons.1 h
    have hkey : String.ofList name ≠ s.name i := by
      intro heq
      rw [← heq, String.toList_ofList] at hother
      exact hother rfl
    simp only [Draft.putAll?, unescape?_of_denotes hname, put?_set hkey]
    cases d.put? (String.ofList name) j with
    | none => rfl
    | some d => exact ih hmembers d

theorem putAll?_cons {key name : List Char} (hkey : Denotes key name) (j : Json)
    (members : List (List Char × Json)) (d : s.Draft) :
    d.putAll? ((key, j) :: members) =
      (d.put? (String.ofList name) j).bind fun d => d.putAll? members := by
  simp only [Draft.putAll?, unescape?_of_denotes hkey]
  cases d.put? (String.ofList name) j <;> rfl

end Members

end Struct

theorem readStruct_of_spells {ι : Type} [DecidableEq ι] (s : Struct ι)
    {members : List (List Char × Json)} {text : String}
    (h : SpellsPadded (.object members) text.toList) :
    library.readStruct s text = (Struct.Draft.empty.putAll? members).map Struct.Draft.complete := by
  change (read? text).bind s.ofDocument? = _
  rw [read?_of_spells h]
  rfl

theorem read_of_spells {type : FieldType} {j : Json} {text : String}
    (h : SpellsPadded j text.toList) : library.read type text = value? type j := by
  change (read? text).bind (value? type) = _
  rw [read?_of_spells h]
  rfl

theorem library_documented : library.Documented where
  writes_text s := ⟨quote s, escape s.toList, rfl, String.toList_ofList, denotes_escape _⟩
  writes_flag _ := rfl
  writes_word _ := rfl
  writes_none _ := rfl
  writes_some _ _ := rfl
  writes_struct s r members h := by
    have hmembers : s.fields.map (s.memberText r) = members.map fun m => m.1 ++ ":" ++ m.2 := by
      generalize s.fields = fields at h ⊢
      induction h with
      | nil => rfl
      | cons hm _ ih =>
        rw [List.map_cons, List.map_cons, ih, ← Option.some.inj hm.1, ← Option.some.inj hm.2]
        rfl
    change some ("\x7b" ++ ",".intercalate (s.fields.map (s.memberText r)) ++ "\x7d") = _
    rw [hmembers]
  reads_text h hraw := (read_of_spells h).trans (text?_of_denotes hraw)
  reads_flag h := read_of_spells h
  reads_word h := (read_of_spells h).trans (word64?_toDigits _)
  reads_null _ _ h := read_of_spells h
  reads_some type j text h hj := by
    rw [read_of_spells h, read_of_spells h]
    cases j with
    | null => exact absurd rfl hj
    | _ => rfl
  reads_empty s _ h := readStruct_of_spells s h
  reads_other s key name j members text rest h hrest hkey hother := by
    rw [readStruct_of_spells s h, readStruct_of_spells s hrest, Struct.putAll?_cons hkey,
      Struct.put?_of_other, Option.bind_some]
    intro i hi
    apply hother i
    rw [← hi, String.toList_ofList]
  reads_field s key j members text rest value i x r h hrest hr hkey hmembers hvalue hx := by
    rw [readStruct_of_spells s hrest] at hr
    obtain ⟨d, hd, rfl⟩ := Option.map_eq_some_iff.1 hr
    rw [read_of_spells hvalue] at hx
    rw [readStruct_of_spells s h, Struct.putAll?_cons hkey, String.ofList_toList,
      Struct.put?_of_name rfl, hx, Option.map_some, Option.bind_some,
      Struct.putAll?_set hmembers, hd, Option.map_some, Option.map_some, Struct.Draft.complete_set]

end ScriptEngine.Json
