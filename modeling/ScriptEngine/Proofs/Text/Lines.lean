import Mathlib.Data.List.DropRight
import ScriptEngine.Proofs.Text.Utf8
import ScriptEngine.Text.Source

/-!
# Lines around places

The table of line starts has one entry more than the text has newlines, and the newlines before a
place are the index of its line. That line is what stands around the place, so the bytes between its
start and the next one always fall on characters.
-/

namespace ScriptEngine

namespace Text

def newlineEnds (start : Nat) : List Char → List Nat
  | [] => []
  | c :: cs =>
    let stop := start + c.utf8Size
    if c = '\n' then stop :: newlineEnds stop cs else newlineEnds stop cs

/-- The line of a place: what stands before it and behind it up to the nearest newlines. -/
def lineAround (before after : List Char) : List Char :=
  before.rtakeWhile (· ≠ '\n') ++ after.takeWhile (· ≠ '\n')

theorem filter_newline_utf8EncodeChar (start : Nat) (c : Char) :
    (((String.utf8EncodeChar c).zipIdx start).filter (·.1 = '\n'.toUInt8)).map (·.2 + 1) =
      if c = '\n' then [start + c.utf8Size] else [] := by
  by_cases hc : c.toNat < 128
  · rw [utf8EncodeChar_of_lt hc]
    by_cases hnewline : c = '\n'
    · subst hnewline
      rfl
    · have hne : c.toUInt8 ≠ '\n'.toUInt8 := fun h => hnewline (toUInt8_inj hc (by decide) h)
      simp [hne, hnewline]
  · have hnewline : c ≠ '\n' := by
      rintro rfl
      exact hc (by decide)
    have hnone : ((String.utf8EncodeChar c).zipIdx start).filter (·.1 = '\n'.toUInt8) = [] := by
      rw [List.filter_eq_nil_iff]
      rintro ⟨b, i⟩ hb hbyte
      have hwide := le_of_mem_utf8EncodeChar hc (List.fst_mem_of_mem_zipIdx hb)
      rw [of_decide_eq_true hbyte] at hwide
      exact absurd hwide (by decide)
    rw [hnone, if_neg hnewline]
    rfl

theorem filter_newline_utf8 (start : Nat) (cs : List Char) :
    (((utf8 cs).zipIdx start).filter (·.1 = '\n'.toUInt8)).map (·.2 + 1) =
      newlineEnds start cs := by
  induction cs generalizing start with
  | nil => rfl
  | cons c cs ih =>
    rw [utf8_cons, List.zipIdx_append, List.filter_append, List.map_append,
      filter_newline_utf8EncodeChar, String.length_utf8EncodeChar, ih, newlineEnds]
    split <;> rfl

theorem Source.lineStarts_eq (s : Source) : s.lineStarts = 0 :: newlineEnds 0 s.text.toList := by
  unfold lineStarts
  rw [toList_toByteArray, filter_newline_utf8]

theorem newlineEnds_append (start : Nat) (as bs : List Char) :
    newlineEnds start (as ++ bs) = newlineEnds start as ++
      newlineEnds (start + (utf8 as).length) bs := by
  induction as generalizing start with
  | nil => rfl
  | cons a as ih =>
    have hoffset : start + (utf8 (a :: as)).length = start + a.utf8Size + (utf8 as).length := by
      rw [utf8_cons, List.length_append, String.length_utf8EncodeChar, Nat.add_assoc]
    rw [hoffset, List.cons_append, newlineEnds, newlineEnds, ih]
    split <;> rfl

theorem length_newlineEnds (start : Nat) (cs : List Char) :
    (newlineEnds start cs).length = cs.count '\n' := by
  induction cs generalizing start with
  | nil => rfl
  | cons c cs ih =>
    rw [newlineEnds]
    split
    next hc => rw [List.length_cons, ih, hc, List.count_cons_self]
    next hc => rw [ih, List.count_cons_of_ne hc]

theorem length_utf8 (cs : List Char) : (utf8 cs).length = (String.ofList cs).utf8ByteSize := by
  have htext := toList_toByteArray (String.ofList cs)
  rw [String.toList_ofList] at htext
  rw [← htext]
  rfl

theorem dropBytes_utf8 (as bs : List Char) : dropBytes (utf8 as).length (as ++ bs) = some bs := by
  induction as with
  | nil => rw [utf8_nil, List.length_nil, dropBytes, List.nil_append]
  | cons a as ih =>
    obtain ⟨n, hn⟩ := Nat.exists_eq_succ_of_ne_zero (Nat.ne_of_gt a.utf8Size_pos)
    rw [utf8_cons, List.length_append, String.length_utf8EncodeChar, List.cons_append]
    rw [hn, Nat.succ_add, dropBytes, hn, if_pos (by omega), Nat.succ_sub_succ,
      Nat.add_sub_cancel_left,
      ih]

theorem takeBytes_utf8 (as bs : List Char) : takeBytes (utf8 as).length (as ++ bs) = some as := by
  induction as with
  | nil => rw [utf8_nil, List.length_nil, takeBytes]
  | cons a as ih =>
    obtain ⟨n, hn⟩ := Nat.exists_eq_succ_of_ne_zero (Nat.ne_of_gt a.utf8Size_pos)
    rw [utf8_cons, List.length_append, String.length_utf8EncodeChar, List.cons_append]
    rw [hn, Nat.succ_add, takeBytes, hn, if_pos (by omega), Nat.succ_sub_succ,
      Nat.add_sub_cancel_left,
      ih, Option.map_some]

namespace Source

variable {s : Source} {above before mid after tail : List Char}

theorem range?_utf8 (h : s.text.toList = above ++ (mid ++ tail)) :
    s.range? (utf8 above).length (utf8 (above ++ mid)).length = some mid := by
  have hlength : (utf8 (above ++ mid)).length = (utf8 above).length + (utf8 mid).length := by
    rw [utf8_append, List.length_append]
  unfold range?
  rw [hlength, if_pos (Nat.le_add_right _ _), h, dropBytes_utf8, Option.bind_some,
    Nat.add_sub_cancel_left, takeBytes_utf8]

theorem lineCount_eq (s : Source) : s.lineCount = s.text.toList.count '\n' + 1 := by
  rw [lineCount, lineStarts_eq, List.length_cons, length_newlineEnds]

theorem getElem?_lineStarts (h : s.text.toList = above ++ tail)
    (hends : ∀ hne, above.getLast hne = '\n') :
    s.lineStarts[above.count '\n']? = some (utf8 above).length := by
  rw [lineStarts_eq, h]
  rcases List.eq_nil_or_concat' above with rfl | ⟨rest, c, rfl⟩
  · rfl
  · obtain rfl : c = '\n' := by simpa using hends (by simp)
    have hindex : (rest ++ ['\n']).count '\n' = (newlineEnds 0 rest).length + 1 := by
      rw [length_newlineEnds, List.count_append]
      rfl
    rw [hindex, List.getElem?_cons_succ, List.append_assoc, newlineEnds_append,
      List.getElem?_append_right (Nat.le_refl _), Nat.sub_self, utf8_append, List.length_append,
      Nat.zero_add]
    rfl

theorem start_of_around (h : s.text.toList = before ++ after) :
    s.lineStarts[before.count '\n']? =
      some (utf8 (before.rdropWhile (· ≠ '\n'))).length := by
  have hsplit : before.rdropWhile (· ≠ '\n') ++ before.rtakeWhile (· ≠ '\n') = before :=
    List.rdropWhile_append_rtakeWhile
  have hline : '\n' ∉ before.rtakeWhile (· ≠ '\n') := fun hmem => by
    simpa using List.mem_rtakeWhile_imp hmem
  have hcount : (before.rdropWhile (· ≠ '\n')).count '\n' = before.count '\n' := by
    conv_rhs => rw [← hsplit, List.count_append, List.count_eq_zero.mpr hline, Nat.add_zero]
  have htext : s.text.toList =
      before.rdropWhile (· ≠ '\n') ++ (before.rtakeWhile (· ≠ '\n') ++ after) := by
    rw [h, ← List.append_assoc, hsplit]
  rw [← hcount]
  refine getElem?_lineStarts htext fun hne => ?_
  simpa using List.rdropWhile_last_not (· ≠ '\n') before hne

theorem stop_of_around (h : s.text.toList = before ++ after) :
    (s.lineStarts[before.count '\n' + 1]?.map (· - 1)).getD s.text.utf8ByteSize =
      (utf8 (before ++ after.takeWhile (· ≠ '\n'))).length := by
  have hsplit : after.takeWhile (· ≠ '\n') ++ after.dropWhile (· ≠ '\n') = after :=
    List.takeWhile_append_dropWhile
  have hline : '\n' ∉ after.takeWhile (· ≠ '\n') := fun hmem => by
    simpa using List.mem_takeWhile_imp hmem
  cases hrest : after.dropWhile (· ≠ '\n') with
  | nil =>
    rw [hrest, List.append_nil] at hsplit
    have hnone : s.lineStarts[before.count '\n' + 1]? = none := by
      rw [hsplit] at hline
      rw [List.getElem?_eq_none_iff, ← lineCount, lineCount_eq, h, List.count_append,
        List.count_eq_zero.mpr hline]
    rw [hnone, hsplit, ← h, length_utf8, String.ofList_toList]
    rfl
  | cons c rest =>
    obtain rfl : c = '\n' := by
      have hne : after.dropWhile (· ≠ '\n') ≠ [] := hrest ▸ List.cons_ne_nil c rest
      have hhead := List.head_dropWhile_not (· ≠ '\n') hne
      simp only [hrest, List.head_cons] at hhead
      simpa using hhead
    rw [hrest] at hsplit
    generalize after.takeWhile (· ≠ '\n') = line at hsplit hline ⊢
    subst hsplit
    have hindex : (before ++ line ++ ['\n']).count '\n' = before.count '\n' + 1 := by
      simp [List.count_eq_zero.mpr hline]
    have htext : s.text.toList = (before ++ line ++ ['\n']) ++ rest := by simp [h]
    rw [← hindex, getElem?_lineStarts htext (by simp), utf8_append, List.length_append]
    rfl

theorem line?_around (h : s.text.toList = before ++ after) :
    s.line? (before.count '\n' + 1) =
      some (String.ofList (trimReturns (lineAround before after))) := by
  have hbefore : before.rdropWhile (· ≠ '\n') ++ before.rtakeWhile (· ≠ '\n') = before :=
    List.rdropWhile_append_rtakeWhile
  have hafter : after.takeWhile (· ≠ '\n') ++ after.dropWhile (· ≠ '\n') = after :=
    List.takeWhile_append_dropWhile
  have htext : s.text.toList = before.rdropWhile (· ≠ '\n') ++
      (lineAround before after ++ after.dropWhile (· ≠ '\n')) := by
    rw [lineAround, List.append_assoc, hafter, ← List.append_assoc, hbefore, h]
  have hstop : before.rdropWhile (· ≠ '\n') ++ lineAround before after =
      before ++ after.takeWhile (· ≠ '\n') := by
    rw [lineAround, ← List.append_assoc, hbefore]
  rw [line?, start_of_around h, stop_of_around h, ← hstop, Option.bind_eq_bind, Option.bind_some]
  dsimp only
  rw [range?_utf8 htext]
  rfl

theorem exists_split_of_le_count {n : Nat} {cs : List Char} (h : n ≤ cs.count '\n') :
    ∃ before after, cs = before ++ after ∧ before.count '\n' = n := by
  induction cs generalizing n with
  | nil => exact ⟨[], [], rfl, (Nat.le_zero.mp h).symm⟩
  | cons c cs ih =>
    rw [List.count_cons] at h
    cases n with
    | zero => exact ⟨[], c :: cs, rfl, rfl⟩
    | succ n =>
      by_cases hc : c = '\n'
      · subst hc
        obtain ⟨before, after, rfl, rfl⟩ := ih (Nat.le_of_succ_le_succ h)
        exact ⟨'\n' :: before, after, rfl, List.count_cons_self⟩
      · rw [if_neg (by simpa using hc), Nat.add_zero] at h
        obtain ⟨before, after, rfl, hcount⟩ := ih h
        exact ⟨c :: before, after, rfl, by rw [List.count_cons_of_ne hc, hcount]⟩

/-- Every line that is counted has a text: the bytes between two starts always fall on characters.
-/
theorem isSome_line?_iff {n : Nat} : (s.line? n).isSome = true ↔ 0 < n ∧ n ≤ s.lineCount := by
  cases n with
  | zero => exact iff_of_false nofun nofun
  | succ n =>
    rcases Nat.lt_or_ge n s.lineCount with hn | hn
    · refine iff_of_true ?_ ⟨Nat.succ_pos n, hn⟩
      rw [lineCount_eq] at hn
      obtain ⟨before, after, htext, rfl⟩ := exists_split_of_le_count (Nat.le_of_lt_succ hn)
      rw [line?_around htext]
      rfl
    · refine iff_of_false ?_ fun h => absurd h.2 (Nat.not_le.mpr (Nat.lt_succ_of_le hn))
      rw [line?, List.getElem?_eq_none_iff.mpr hn]
      nofun

end Source

end Text

end ScriptEngine
