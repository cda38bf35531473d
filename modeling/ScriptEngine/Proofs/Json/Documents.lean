import ScriptEngine.Proofs.Json.Literals

/-!
# Documents of JSON

How a document is written, with blanks between its tokens. Every way of writing a document is read
as that document, since the reader looks one character ahead and its bound on steps grows with the
text.
-/

namespace ScriptEngine.Json

def IsBlank (cs : List Char) : Prop :=
  ∀ c ∈ cs, isSpace c = true

mutual

inductive Spells : Json → List Char → Prop where
  | null : Spells .null ['n', 'u', 'l', 'l']
  | true : Spells (.bool true) ['t', 'r', 'u', 'e']
  | false : Spells (.bool false) ['f', 'a', 'l', 's', 'e']
  | number {literal : List Char} (h : IsNumeral literal) : Spells (.number literal) literal
  | string {raw : List Char} (h : IsRaw raw) : Spells (.string raw) ('"' :: (raw ++ ['"']))
  | emptyArray {b : List Char} (hb : IsBlank b) : Spells (.array []) ('[' :: (b ++ [']']))
  | array {items : List Json} {cs : List Char} (h : SpellsItems items cs) :
      Spells (.array items) ('[' :: (cs ++ [']']))
  | emptyObject {b : List Char} (hb : IsBlank b) :
      Spells (.object []) ('\x7b' :: (b ++ ['\x7d']))
  | object {members : List (List Char × Json)} {cs : List Char} (h : SpellsMembers members cs) :
      Spells (.object members) ('\x7b' :: (cs ++ ['\x7d']))

inductive SpellsPadded : Json → List Char → Prop where
  | intro {j : Json} {b cs b' : List Char} (hb : IsBlank b) (h : Spells j cs) (hb' : IsBlank b') :
      SpellsPadded j (b ++ (cs ++ b'))

inductive SpellsItems : List Json → List Char → Prop where
  | last {j : Json} {cs : List Char} (h : SpellsPadded j cs) : SpellsItems [j] cs
  | cons {j : Json} {cs : List Char} {js : List Json} {rest : List Char} (h : SpellsPadded j cs)
      (hrest : SpellsItems js rest) : SpellsItems (j :: js) (cs ++ ',' :: rest)

inductive SpellsMember : List Char × Json → List Char → Prop where
  | intro {key : List Char} {j : Json} {b b' cs : List Char} (hb : IsBlank b) (hkey : IsRaw key)
      (hb' : IsBlank b') (h : SpellsPadded j cs) :
      SpellsMember (key, j) (b ++ '"' :: (key ++ '"' :: (b' ++ ':' :: cs)))

inductive SpellsMembers : List (List Char × Json) → List Char → Prop where
  | last {member : List Char × Json} {cs : List Char} (h : SpellsMember member cs) :
      SpellsMembers [member] cs
  | cons {member : List Char × Json} {cs : List Char} {members : List (List Char × Json)}
      {rest : List Char} (h : SpellsMember member cs) (hrest : SpellsMembers members rest) :
      SpellsMembers (member :: members) (cs ++ ',' :: rest)

end

section Blanks

variable {b rest : List Char}

theorem isBlank_nil : IsBlank [] := by
  intro c hc
  cases hc

theorem skipSpace_cons {c : Char} (hc : isSpace c = false) : skipSpace (c :: rest) = c :: rest :=
  List.dropWhile_cons_of_neg (by rw [hc]; exact Bool.false_ne_true)

theorem skipSpace_blank (hb : IsBlank b) : skipSpace (b ++ rest) = skipSpace rest :=
  List.dropWhile_append_of_pos hb

theorem not_digit_of_isSpace {c : Char} (h : isSpace c = true) :
    isDigit c = false ∧ c ≠ '.' ∧ c ≠ 'e' ∧ c ≠ 'E' := by
  simp only [isSpace, Bool.or_eq_true, decide_eq_true_eq] at h
  obtain ((rfl | rfl) | rfl) | rfl := h
  all_goals decide

theorem EndsNumber.blank (hb : IsBlank b) (hrest : EndsNumber rest) : EndsNumber (b ++ rest) := by
  cases b with
  | nil => exact hrest
  | cons c cs =>
    intro d hd
    cases hd
    exact not_digit_of_isSpace (hb c List.mem_cons_self)

theorem endsNumber_cons (c : Char) (rest : List Char) (h : c ∈ [',', ']', '\x7d']) :
    EndsNumber (c :: rest) := by
  intro d hd
  cases hd
  simp only [List.mem_cons, List.not_mem_nil, or_false] at h
  obtain rfl | rfl | rfl := h
  all_goals decide

theorem endsNumber_nil : EndsNumber [] := by
  intro c hc
  cases hc

end Blanks

section Steps

variable {n : ℕ} {text cs rest : List Char}

/-- A character with which a document begins. No closing bracket is one. -/
def BeginsValue (c : Char) : Prop :=
  isSpace c = false ∧ c ≠ ']'

theorem IsNumeral.exists_cons {literal : List Char} (h : IsNumeral literal) :
    ∃ c cs, literal = c :: cs ∧ (c = '-' ∨ isDigit c = true) := by
  obtain ⟨hminus, hwhole, -, -⟩ := h
  obtain ⟨c, cs, rfl, hc⟩ := hwhole.exists_cons
  rcases hminus with rfl | rfl
  · exact ⟨c, _, rfl, .inr hc⟩
  · exact ⟨'-', _, rfl, .inl rfl⟩

theorem beginsValue_of_numeral {c : Char} (h : c = '-' ∨ isDigit c = true) : BeginsValue c := by
  rcases h with rfl | hc
  · exact ⟨by decide, by decide⟩
  · refine ⟨?_, ?_⟩
    · by_contra hspace
      rw [Bool.not_eq_false] at hspace
      rw [(not_digit_of_isSpace hspace).1] at hc
      cases hc
    · rintro rfl
      cases hc

theorem Spells.exists_cons {j : Json} (h : Spells j cs) :
    ∃ c cs', cs = c :: cs' ∧ BeginsValue c := by
  cases h with
  | number h =>
    obtain ⟨c, cs', rfl, hc⟩ := h.exists_cons
    exact ⟨c, cs', rfl, beginsValue_of_numeral hc⟩
  | _ => exact ⟨_, _, rfl, by decide, by decide⟩

theorem readValue_numeral {c : Char} (h : skipSpace text = c :: cs)
    (hc : c = '-' ∨ isDigit c = true) :
    readValue (n + 1) text =
      (readNumber (c :: cs)).map fun (literal, rest) => (.number literal, rest) := by
  have hne {d : Char} (hd : d ∈ ['n', 't', 'f', '"', '[', '\x7b']) : c ≠ d := by
    rintro rfl
    simp only [List.mem_cons, List.not_mem_nil, or_false] at hd
    obtain rfl | rfl | rfl | rfl | rfl | rfl := hd
    all_goals revert hc; decide
  rw [readValue, h]
  split
  all_goals first
    | rfl
    | next heq => exact absurd (List.cons.inj heq).1 (hne (by decide))

theorem readValue_string (h : skipSpace text = '"' :: cs) :
    readValue (n + 1) text = (readRaw cs).map fun (raw, rest) => (.string raw, rest) := by
  rw [readValue, h]
  rfl

theorem readValue_bracket (h : skipSpace text = '[' :: cs) :
    readValue (n + 1) text =
      match skipSpace cs with
      | ']' :: rest => some (.array [], rest)
      | _ => (readItems n cs).map fun (items, rest) => (.array items, rest) := by
  rw [readValue, h]
  rfl

theorem readValue_emptyArray (h : skipSpace text = '[' :: cs) (hend : skipSpace cs = ']' :: rest) :
    readValue (n + 1) text = some (.array [], rest) := by
  rw [readValue_bracket h, hend]
  rfl

theorem readValue_array {c : Char} {cs' : List Char} (h : skipSpace text = '[' :: cs)
    (hnext : skipSpace cs = c :: cs') (hc : c ≠ ']') :
    readValue (n + 1) text = (readItems n cs).map fun (items, rest) => (.array items, rest) := by
  rw [readValue_bracket h, hnext]
  split
  next heq => exact absurd (List.cons.inj heq).1 hc
  next => rfl

theorem readValue_brace (h : skipSpace text = '\x7b' :: cs) :
    readValue (n + 1) text =
      match skipSpace cs with
      | '\x7d' :: rest => some (.object [], rest)
      | _ => (readMembers n cs).map fun (members, rest) => (.object members, rest) := by
  rw [readValue, h]
  rfl

theorem readValue_emptyObject (h : skipSpace text = '\x7b' :: cs)
    (hend : skipSpace cs = '\x7d' :: rest) :
    readValue (n + 1) text = some (.object [], rest) := by
  rw [readValue_brace h, hend]
  rfl

theorem readValue_object {c : Char} {cs' : List Char} (h : skipSpace text = '\x7b' :: cs)
    (hnext : skipSpace cs = c :: cs') (hc : c ≠ '\x7d') :
    readValue (n + 1) text =
      (readMembers n cs).map fun (members, rest) => (.object members, rest) := by
  rw [readValue_brace h, hnext]
  split
  next heq => exact absurd (List.cons.inj heq).1 hc
  next => rfl

theorem readItems_last {j : Json} {cs' : List Char} (h : readValue n text = some (j, cs'))
    (hend : skipSpace cs' = ']' :: rest) : readItems (n + 1) text = some ([j], rest) := by
  simp only [readItems, h, hend]

theorem readItems_cons {j : Json} {cs' : List Char} (h : readValue n text = some (j, cs'))
    (hnext : skipSpace cs' = ',' :: cs) :
    readItems (n + 1) text = (readItems n cs).map fun (items, rest) => (j :: items, rest) := by
  simp only [readItems, h, hnext]

inductive ReadsMember (n : ℕ) (text : List Char) (member : List Char × Json) (rest : List Char) :
    Prop where
  | intro {raw colon value behind : List Char} (htext : skipSpace text = '"' :: raw)
      (hkey : readRaw raw = some (member.1, colon)) (hcolon : skipSpace colon = ':' :: value)
      (hvalue : readValue n value = some (member.2, behind)) (hrest : skipSpace behind = rest) :
      ReadsMember n text member rest

theorem readMembers_last {member : List Char × Json}
    (h : ReadsMember n text member ('\x7d' :: rest)) :
    readMembers (n + 1) text = some ([member], rest) := by
  obtain ⟨htext, hkey, hcolon, hvalue, hrest⟩ := h
  simp only [readMembers, htext, hkey, hcolon, hvalue, hrest]

theorem readMembers_cons {member : List Char × Json} (h : ReadsMember n text member (',' :: cs)) :
    readMembers (n + 1) text =
      (readMembers n cs).map fun (members, rest) => (member :: members, rest) := by
  obtain ⟨htext, hkey, hcolon, hvalue, hrest⟩ := h
  simp only [readMembers, htext, hkey, hcolon, hvalue, hrest]

end Steps

section Completeness

/-- Within a bound on steps, every way of writing a value, items or members is read through its end.
-/
structure ReadsAll (n : ℕ) : Prop where
  value : ∀ {j : Json} {b cs rest : List Char}, Spells j cs → IsBlank b → EndsNumber rest →
    2 * cs.length ≤ n → readValue n (b ++ (cs ++ rest)) = some (j, rest)
  items : ∀ {js : List Json} {cs rest : List Char}, SpellsItems js cs → 2 * cs.length + 1 ≤ n →
    readItems n (cs ++ ']' :: rest) = some (js, rest)
  members : ∀ {members : List (List Char × Json)} {cs rest : List Char}, SpellsMembers members cs →
    2 * cs.length + 1 ≤ n → readMembers n (cs ++ '\x7d' :: rest) = some (members, rest)

variable {n : ℕ} {cs rest : List Char}

theorem ReadsAll.padded (h : ReadsAll n) {j : Json} (hj : SpellsPadded j cs)
    (hrest : EndsNumber rest) (hn : 2 * cs.length ≤ n) :
    ∃ behind, readValue n (cs ++ rest) = some (j, behind) ∧ skipSpace behind = skipSpace rest := by
  obtain @⟨_, b, cs, b', hb, hj, hb'⟩ := hj
  simp only [List.length_append] at hn
  have hvalue := h.value hj hb (hrest.blank hb') (by omega)
  refine ⟨b' ++ rest, ?_, skipSpace_blank hb'⟩
  simpa only [List.append_assoc] using hvalue

theorem ReadsAll.member (h : ReadsAll n) {member : List Char × Json}
    (hmember : SpellsMember member cs)
    (hrest : EndsNumber rest) (hn : 2 * cs.length ≤ n) :
    ReadsMember n (cs ++ rest) member (skipSpace rest) := by
  obtain @⟨key, j, b, b', cs, hb, hkey, hb', hj⟩ := hmember
  simp only [List.length_append, List.length_cons] at hn
  obtain ⟨behind, hvalue, hbehind⟩ := h.padded hj hrest (by omega)
  refine .intro ?_ (readRaw_of_isRaw hkey (b' ++ ':' :: (cs ++ rest))) ?_ hvalue hbehind
  · simp only [List.append_assoc, List.cons_append]
    rw [skipSpace_blank hb, skipSpace_cons (by decide)]
  · rw [skipSpace_blank hb', skipSpace_cons (by decide)]

theorem SpellsPadded.skipSpace_append {j : Json} (h : SpellsPadded j cs) (rest : List Char) :
    ∃ c cs', skipSpace (cs ++ rest) = c :: cs' ∧ c ≠ ']' := by
  obtain ⟨hb, hj, -⟩ := h
  obtain ⟨c, cs', rfl, hspace, hclose⟩ := hj.exists_cons
  simp only [List.append_assoc, List.cons_append, skipSpace_blank hb, skipSpace_cons hspace]
  exact ⟨c, _, rfl, hclose⟩

theorem SpellsItems.skipSpace_append {js : List Json} (h : SpellsItems js cs) (rest : List Char) :
    ∃ c cs', skipSpace (cs ++ rest) = c :: cs' ∧ c ≠ ']' := by
  cases h with
  | last h => exact h.skipSpace_append _
  | cons h =>
    rw [List.append_assoc]
    exact h.skipSpace_append _

theorem SpellsMember.skipSpace_append {member : List Char × Json} (h : SpellsMember member cs)
    (rest : List Char) : ∃ cs', skipSpace (cs ++ rest) = '"' :: cs' := by
  obtain ⟨hb, -, -, -⟩ := h
  simp only [List.append_assoc, List.cons_append]
  rw [skipSpace_blank hb, skipSpace_cons (by decide)]
  exact ⟨_, rfl⟩

theorem SpellsMembers.skipSpace_append {members : List (List Char × Json)}
    (h : SpellsMembers members cs) (rest : List Char) :
    ∃ cs', skipSpace (cs ++ rest) = '"' :: cs' := by
  cases h with
  | last h => exact h.skipSpace_append _
  | cons h =>
    rw [List.append_assoc]
    exact h.skipSpace_append _

theorem ReadsAll.value_succ (h : ReadsAll n) {j : Json} {b : List Char} (hj : Spells j cs)
    (hb : IsBlank b) (hrest : EndsNumber rest) (hn : 2 * cs.length ≤ n + 1) :
    readValue (n + 1) (b ++ (cs ++ rest)) = some (j, rest) := by
  obtain ⟨c, cs', hcs, hspace, -⟩ := hj.exists_cons
  have htext : skipSpace (b ++ (cs ++ rest)) = cs ++ rest := by
    rw [skipSpace_blank hb, hcs, List.cons_append, skipSpace_cons hspace]
  cases hj with
  | null =>
    rw [readValue, htext]
    rfl
  | true =>
    rw [readValue, htext]
    rfl
  | false =>
    rw [readValue, htext]
    rfl
  | number hliteral =>
    obtain ⟨d, ds, rfl, hd⟩ := hliteral.exists_cons
    have hread := readNumber_of_isNumeral hliteral hrest
    rw [List.cons_append] at htext hread ⊢
    rw [readValue_numeral htext hd, hread, Option.map_some]
  | @string raw hraw =>
    simp only [List.cons_append, List.append_assoc, List.nil_append] at htext ⊢
    rw [readValue_string htext, readRaw_of_isRaw hraw, Option.map_some]
  | @emptyArray blank hblank =>
    simp only [List.cons_append, List.append_assoc, List.nil_append] at htext ⊢
    apply readValue_emptyArray htext
    rw [skipSpace_blank hblank, skipSpace_cons (by decide)]
  | @array items cs hitems =>
    obtain ⟨d, ds, hnext, hd⟩ := hitems.skipSpace_append (']' :: rest)
    simp only [List.length_cons, List.length_append, List.length_nil] at hn
    simp only [List.cons_append, List.append_assoc, List.nil_append] at htext ⊢
    rw [readValue_array htext hnext hd, h.items hitems (by omega), Option.map_some]
  | @emptyObject blank hblank =>
    simp only [List.cons_append, List.append_assoc, List.nil_append] at htext ⊢
    apply readValue_emptyObject htext
    rw [skipSpace_blank hblank, skipSpace_cons (by decide)]
  | @object members cs hmembers =>
    obtain ⟨ds, hnext⟩ := hmembers.skipSpace_append ('\x7d' :: rest)
    simp only [List.length_cons, List.length_append, List.length_nil] at hn
    simp only [List.cons_append, List.append_assoc, List.nil_append] at htext ⊢
    rw [readValue_object htext hnext (by decide), h.members hmembers (by omega), Option.map_some]

theorem ReadsAll.items_succ (h : ReadsAll n) {js : List Json} (hjs : SpellsItems js cs)
    (hn : 2 * cs.length + 1 ≤ n + 1) :
    readItems (n + 1) (cs ++ ']' :: rest) = some (js, rest) := by
  cases hjs with
  | last hj =>
    obtain ⟨behind, hvalue, hbehind⟩ := h.padded hj (endsNumber_cons ']' rest (by simp))
      (by omega)
    exact readItems_last hvalue (hbehind.trans (skipSpace_cons (by decide)))
  | @cons j cs js more hj hjs =>
    simp only [List.length_append, List.length_cons] at hn
    obtain ⟨behind, hvalue, hbehind⟩ := h.padded hj
      (endsNumber_cons ',' (more ++ ']' :: rest) (by simp)) (by omega)
    rw [List.append_assoc, List.cons_append,
      readItems_cons hvalue (hbehind.trans (skipSpace_cons (by decide))), h.items hjs (by omega),
      Option.map_some]

theorem ReadsAll.members_succ (h : ReadsAll n) {members : List (List Char × Json)}
    (hmembers : SpellsMembers members cs) (hn : 2 * cs.length + 1 ≤ n + 1) :
    readMembers (n + 1) (cs ++ '\x7d' :: rest) = some (members, rest) := by
  cases hmembers with
  | last hmember =>
    have hread := h.member hmember (endsNumber_cons '\x7d' rest (by simp)) (by omega)
    rw [skipSpace_cons (by decide)] at hread
    exact readMembers_last hread
  | @cons member cs members more hmember hmembers =>
    simp only [List.length_append, List.length_cons] at hn
    have hread := h.member hmember (endsNumber_cons ',' (more ++ '\x7d' :: rest) (by simp))
      (by omega)
    rw [skipSpace_cons (by decide)] at hread
    rw [List.append_assoc, List.cons_append, readMembers_cons hread, h.members hmembers (by omega),
      Option.map_some]

/-- The bound on steps allows two for each character. -/
theorem readsAll (n : ℕ) : ReadsAll n := by
  induction n with
  | zero =>
    constructor
    · intro j b cs rest hj _ _ hn
      obtain ⟨c, cs', rfl, -⟩ := hj.exists_cons
      simp only [List.length_cons] at hn
      omega
    · intro js cs rest _ hn
      omega
    · intro members cs rest _ hn
      omega
  | succ n ih => exact ⟨ih.value_succ, ih.items_succ, ih.members_succ⟩

theorem read?_of_spells {j : Json} {text : String} (h : SpellsPadded j text.toList) :
    read? text = some j := by
  unfold read?
  obtain ⟨behind, hvalue, hbehind⟩ := (readsAll (2 * text.toList.length + 2)).padded h
    endsNumber_nil (by omega)
  rw [List.append_nil] at hvalue
  dsimp only
  rw [hvalue]
  dsimp only
  rw [hbehind]
  rfl

end Completeness

end ScriptEngine.Json
