import ScriptEngine.Proofs.Layout.EndOfInput
import ScriptEngine.Proofs.Syntax.Concatenation
import ScriptEngine.Proofs.Token.LongestMatch

/-!
# Where errors point

An error in a text names a line, a column and what was found there, and all of that is about one
place: the token start that the scan refuses, the token that the parser refuses, or the end of the
text. The parser refuses a token before it has seen what follows, so any other tokens could stand
behind it. The line is shown without the carriage returns at its end, and since no token begins with
one of these the place is still on it.
-/

namespace ScriptEngine

open Token SyntaxError

namespace Text

theorem trimReturns_append_cons {c : Char} (hc : c ≠ '\r') (as bs : List Char) :
    trimReturns (as ++ c :: bs) = as ++ c :: trimReturns bs := by
  by_cases hbs : bs.reverse.dropWhile (· == '\r') = [] <;>
    simp [trimReturns, List.dropWhile_append, hbs, hc]

theorem column_le_length {c : Char} (hnewline : c ≠ '\n') (hreturn : c ≠ '\r')
    (before rest : List Char) :
    1 + (before.rtakeWhile (· ≠ '\n')).length ≤
      (trimReturns (lineAround before (c :: rest))).length := by
  unfold lineAround
  rw [List.takeWhile_cons_of_pos (by simpa using hnewline), trimReturns_append_cons hreturn]
  simp only [List.length_append, List.length_cons]
  omega

end Text

open Text Position

namespace SyntaxError

/-- An error has the line and the column of a place of a source, and shows its line of text. -/
structure PointsAt (e : SyntaxError) (source : Source) (before after : String) : Prop where
  text : source.text = before ++ after
  line : e.line = 1 + before.toList.count '\n'
  column : e.column = 1 + (before.toList.rtakeWhile (· ≠ '\n')).length
  sourceLine : e.sourceLine = String.ofList (trimReturns (lineAround before.toList after.toList))

theorem pointsAt_report {source : Source} {before after : List Char} {f : Fault} {q : Position}
    (htext : source.text.toList = before ++ after) (hspan : f.span = (behind before).spanTo q) :
    (f.report source).PointsAt source (String.ofList before) (String.ofList after) := by
  have hline : f.span.line = before.count '\n' + 1 := by
    rw [hspan, Nat.add_comm]
    rfl
  refine ⟨String.toList_injective (by simpa using htext), ?_, ?_, ?_⟩
  · rw [String.toList_ofList, Nat.add_comm]
    exact hline
  · rw [String.toList_ofList]
    exact congrArg Span.column hspan
  · simp only [Fault.report, hline, Source.line?_around htext, Option.getD_some,
      String.toList_ofList]

theorem PointsAt.column_le {e : SyntaxError} {source : Source} {before after : String}
    (h : e.PointsAt source before after)
    (hstart : Lexeme.TokenStart source.text.toList after.toList) :
    e.column ≤ e.sourceLine.length := by
  obtain ⟨c, cs, hafter, hgap⟩ : ∃ c cs, after.toList = c :: cs ∧ Lexeme.isGap c = false := by
    generalize after.toList = rest at hstart
    cases hstart with
    | first _ hstarts _ => exact ⟨_, _, rfl, hstarts.1⟩
    | later _ _ _ _ _ hstarts => exact ⟨_, _, rfl, hstarts.1⟩
  rw [h.column, h.sourceLine, hafter, String.length_ofList]
  exact column_le_length (fun hc => by simp [hc, Lexeme.isGap] at hgap)
    (fun hc => by simp [hc, Lexeme.isGap] at hgap) _ _

end SyntaxError

namespace Overlap

/-- Streams that begin with the same tokens. -/
def beginning {s s' : Stream} (hs : s.Closed) {n : Nat} (hn : n ≤ s'.last)
    (hagrees : ∀ x < n, s'.get x = s.get x) : Overlap where
  source := s
  copy := s'
  place := 0
  length := n
  whole := False
  closed := hs
  fits := by rwa [Nat.zero_add]
  agrees x hx := by rw [Nat.zero_add, hagrees x hx]
  seam := False.elim

end Overlap

namespace Program

open Parse Grammar

variable {s s' : Stream} {f : Fault}

theorem ofStream_eq_error : ofStream s = .error f ↔ statements s = .error f := by
  unfold ofStream
  cases statements s <;> simp

theorem fault_of_agrees (hs : s.Closed) (hs' : s'.Closed) {n : Nat} (hn : n ≤ s'.last)
    (hagrees : ∀ x < n, s'.get x = s.get x) (h : ofStream s = .error f) :
    ∃ c k, f = .atToken c (s.get k) ∧ k ≤ s.last ∧ c.code.category = .grammatical ∧
      (k < n → c ≠ .tooDeep → ofStream s' = .error f) := by
  obtain ⟨m, hm⟩ : ∃ m, m = s.last + s'.last + 1 := ⟨_, rfl⟩
  have hfollows : Follows (Overlap.beginning hs hn hagrees) 0 (reader m m) (reader m m)
      fun _ ss ss' => ss'.map (Stmt.relocate .detach) = ss.map (Stmt.relocate .detach) :=
    Follows.manyUntil (fun _ => False.elim) (fun z _ => (local_upTo m).statement _ z)
      (show n < 0 + m by omega)
  rw [ofStream_eq_error, statements_eq_reader hs (show s.last < m by omega)] at h
  obtain ⟨a, a', y, hrun, -⟩ | ⟨c, k, hrun, -, hk, hc, hcopy⟩ := hfollows (Nat.zero_le _)
  · rw [show reader m m s 0 = _ from hrun] at h
    cases h
  · rw [show reader m m s 0 = _ from hrun] at h
    cases h
    refine ⟨c, k, rfl, hk, hc, fun hlt hdeep => ?_⟩
    rw [ofStream_eq_error, statements_eq_reader hs' (show s'.last < m by omega),
      show reader m m s' 0 = _ from hcopy hlt hdeep]
    rfl

theorem ofStream_error (hs : s.Closed)
    (hplaces : ∀ i ≤ s.last, ∀ j ≤ s.last, (s.get i).span = (s.get j).span → i = j)
    (h : ofStream s = .error f) :
    ∃ c k, f = .atToken c (s.get k) ∧ k ≤ s.last ∧ c.code.category = .grammatical ∧
      ∀ s' : Stream, s'.Closed → k < s'.last → (∀ x ≤ k, s'.get x = s.get x) →
        ofStream s' = .error f := by
  obtain ⟨program, hprogram⟩ | ⟨c, hdeep, k, hk, hfault⟩ := ofStream_cases hs
  · cases hprogram.symm.trans h
  · have hk : k ≤ s.last := Stream.lt_size_iff.mp hk
    obtain rfl : f = .atToken c (s.get k) := Except.error.inj (h.symm.trans hfault)
    obtain ⟨c', k', heq, -, hc, -⟩ := fault_of_agrees hs hs (Nat.zero_le _)
      (fun x hx => absurd hx (Nat.not_lt_zero x)) h
    obtain rfl : c = c' := congrArg Fault.cause heq
    refine ⟨c, k, rfl, hk, hc, fun s' hs' hlast hagrees => ?_⟩
    obtain ⟨c', k', heq, hk', -, hcopy⟩ :=
      fault_of_agrees hs hs' hlast (fun x hx => hagrees x (Nat.le_of_lt_succ hx)) h
    obtain rfl : c = c' := congrArg Fault.cause heq
    obtain rfl : k = k' := hplaces k hk k' hk' (congrArg Fault.span heq)
    exact hcopy (Nat.lt_succ_self k) hdeep

section Tokens

variable {source : Source} {tokens : List Token} {e : SyntaxError}

theorem lt_length_of_le_last (hs : s.tokens = tokens.toArray) {i : Nat} (hi : i ≤ s.last) :
    i < tokens.length := by
  simpa [hs] using Stream.lt_size_iff.mpr hi

theorem eq_of_span (hscan : scan source.text = .ok tokens) (hs : s.tokens = tokens.toArray)
    {i j : Nat} (hi : i ≤ s.last) (hj : j ≤ s.last) (hspan : (s.get i).span = (s.get j).span) :
    i = j := by
  have hlaid := laid_of_scan hscan
  have hordered := List.pairwise_iff_getElem.mp hlaid.ordered
  have hi := lt_length_of_le_last hs hi
  have hj := lt_length_of_le_last hs hj
  rw [Stream.get_of_tokens hs hi, Stream.get_of_tokens hs hj] at hspan
  rcases Nat.lt_trichotomy i j with hlt | heq | hlt
  · exact absurd (hspan ▸ (hordered i j hi hj hlt).1) (Nat.lt_irrefl _)
  · exact heq
  · exact absurd (hspan ▸ (hordered j i hj hi hlt).1) (Nat.lt_irrefl _)

theorem get_of_le {us vs : List Token} {t : Token} {finish finish' : Position} {i : Nat}
    (hi : i ≤ us.length) (vs' : List Token) :
    (Stream.ofTokens (us ++ t :: vs').toArray finish').get i =
      (Stream.ofTokens (us ++ t :: vs).toArray finish).get i := by
  have hlt : i < (us ++ [t]).length := by
    rw [List.length_append, List.length_singleton]
    omega
  rw [List.append_cons us t vs', List.append_cons us t vs, Stream.get_append_left finish hlt,
    Stream.get_append_left finish hlt]

theorem refused_of_ofTokens (hscan : scan source.text = .ok tokens)
    (h : ofTokens tokens source = .error e) :
    ∃ c us t vs, tokens = us ++ t :: vs ∧ e = (Fault.atToken c t).report source ∧
      c.code.category = .grammatical ∧ (t.kind ≠ .endOfInput → ∀ vs' source',
        ofTokens (us ++ t :: vs') source' = .error ((Fault.atToken c t).report source')) := by
  unfold ofTokens at h
  split at h
  next => cases h
  next f hfault =>
    cases h
    have htokens := Stream.tokens_ofTokens (scanFrom_of_scan hscan) source.endPosition
    obtain ⟨c, k, rfl, hk, hc, hlocal⟩ := ofStream_error (Stream.closed_ofList _ _)
      (fun i hi j hj => eq_of_span hscan htokens hi hj) hfault
    have hopen := (Stream.regular_of_scanFrom (scanFrom_of_scan hscan) htokens).goes_on
    have hlength := lt_length_of_le_last htokens hk
    obtain ⟨us, t, vs, rfl, rfl⟩ : ∃ us t vs, tokens = us ++ t :: vs ∧ us.length = k :=
      ⟨tokens.take k, tokens[k], tokens.drop (k + 1), by simp, by simp; omega⟩
    have hget : (Stream.ofTokens (us ++ t :: vs).toArray source.endPosition).get us.length = t := by
      simp [Stream.get_ofTokens hlength]
    refine ⟨c, us, t, vs, rfl, by rw [hget], hc, fun hkind vs' source' => ?_⟩
    have hlast := Stream.le_last_of_kindAt (i := us.length + 1)
      (Stream.closed_ofList (us ++ t :: vs') source'.endPosition) fun x hx => by
        rw [Stream.kindAt, get_of_le (Nat.le_of_lt_succ hx)]
        rcases Nat.lt_or_eq_of_le (Nat.le_of_lt_succ hx) with hlt | rfl
        · exact hopen x (Nat.lt_of_lt_of_le hlt hk)
        · rwa [hget]
    rw [ofTokens, hlocal _ (Stream.closed_ofList _ _) hlast fun x hx => get_of_le hx vs', hget]

end Tokens

end Program

/-- What an error is about, at an offset and in the text from there on: a character that begins no
lexeme, the mark of a hexadecimal number without digits, or the lexeme of a token that is refused
with any tokens behind it. -/
inductive SyntaxError.Offends (source : Source) (p : Nat) (after : List Char)
    (e : SyntaxError) : Prop
  | character {c : Char} {cs : List Char} : after = c :: cs → Lexeme.Refuses after →
      e.cause = .unexpectedCharacter c → e.token = some (String.ofList [c]) →
        Offends source p after e
  | number {mark : Char} {cs : List Char} : after = '0' :: mark :: cs → Lexeme.Refuses after →
      e.cause = .emptyHexadecimal → e.token = some (String.ofList ['0', mark]) →
      Offends source p after e
  | token {us vs : List Token} {t : Token} : scan source.text = .ok (us ++ t :: vs) →
      t.span.start = p → t.text ≠ "" → t.text.toList <+: after → e.token = some t.describe →
      (∀ vs' source', Program.ofTokens (us ++ t :: vs') source' =
        .error ((Fault.atToken e.cause t).report source')) → Offends source p after e

variable {source : Source} {e : SyntaxError}

theorem SyntaxError.offends_of_scanSource (h : scanSource source = .error e) :
    ∃ before after, e.PointsAt source before after ∧ e.atEnd = false ∧
      Lexeme.TokenStart source.text.toList after.toList ∧
      e.Offends source before.utf8ByteSize after.toList ∧ e.category = .lexical := by
  unfold scanSource at h
  split at h
  next => cases h
  next fault hfault =>
    cases h
    obtain ⟨before, c, rest, refusal, htext, hstart, hrefusal, rfl⟩ :=
      refused_of_scanFrom (scanFrom_of_scan hfault)
    rw [show Position.first = behind [] from rfl, advance_behind, List.nil_append]
    have hrefuses := Lexeme.refuses_iff.mp ⟨refusal, hrefusal⟩
    have hpoints := pointsAt_report (f := ofRefusal refusal (behind before)) htext rfl
    refine ⟨_, _, hpoints, rfl, by rwa [String.toList_ofList], ?_⟩
    rw [String.toList_ofList]
    rcases Lexeme.refusal_cases hrefusal with rfl | ⟨mark, rest, hrest, rfl⟩
    · exact ⟨.character rfl hrefuses rfl rfl, rfl⟩
    · exact ⟨.number hrest hrefuses rfl rfl, rfl⟩

theorem SyntaxError.offends_of_ofTokens {tokens : List Token}
    (hscan : scan source.text = .ok tokens)
    (h : Program.ofTokens tokens source = .error e) :
    ∃ before after, e.PointsAt source before after ∧ (e.atEnd = true → after = "") ∧
      (e.atEnd = false → Lexeme.TokenStart source.text.toList after.toList ∧
        e.Offends source before.utf8ByteSize after.toList) ∧ e.category = .grammatical := by
  obtain ⟨c, us, t, vs, rfl, rfl, hc, hlocal⟩ := Program.refused_of_ofTokens hscan h
  have hmem : t ∈ us ++ t :: vs := List.mem_append_right us List.mem_cons_self
  by_cases hkind : t.kind = .endOfInput
  · have hlaid := laid_of_scan hscan
    obtain ⟨ws, htokens, hws⟩ := hlaid.ends
    obtain rfl : t = Token.atEnd (behind source.text.toList) := by
      rw [htokens] at hmem
      rcases List.mem_append.mp hmem with ht | ht
      · exact absurd hkind (hws t ht).1
      · exact List.mem_singleton.mp ht
    have hpoints := pointsAt_report (f := .atToken c (Token.atEnd (behind source.text.toList)))
      (List.append_nil source.text.toList).symm rfl
    exact ⟨_, _, hpoints, fun _ => rfl, nofun, hc⟩
  · have hlexeme : t.described? = some t.describe := by simp [described?, isEnd, hkind]
    obtain ⟨before, after, htext, hstart, hbegins, hne, hspan⟩ :=
      tokenStart_of_mem (scanFrom_of_scan hscan) hmem hkind
    rw [show Position.first = behind [] from rfl, advance_behind, List.nil_append] at hspan
    have hpoints := pointsAt_report (f := .atToken c t) htext hspan
    refine ⟨_, _, hpoints, fun hend => ?_, fun _ => ?_, hc⟩
    · simp [SyntaxError.atEnd, Fault.report, Fault.atToken, hlexeme] at hend
    · rw [String.toList_ofList]
      refine ⟨hstart, .token hscan ?_ hne hbegins hlexeme (hlocal hkind)⟩
      rw [hspan]
      rfl

/-- An error in a text points at what it is about. There is an offset whose line, column and line of
text are those of the error. At the end of input it is the end of the text; otherwise a lexeme is
looked for there, what is found is what the error is about, and the line of text reaches beyond the
column. The error is lexical exactly when the scan has raised it. -/
theorem Program.errors_point_at_text (h : Program.ofSource source = .error e) :
    ∃ p before after, before.utf8ByteSize = p ∧ e.PointsAt source before after ∧
      (e.atEnd = true → p = source.text.utf8ByteSize) ∧
      (e.atEnd = false → Lexeme.TokenStart source.text.toList after.toList ∧
        e.Offends source p after.toList ∧ e.column ≤ e.sourceLine.length) ∧
      (e.category = .lexical ↔ scanSource source = .error e) := by
  unfold Program.ofSource at h
  split at h
  next tokens hscan =>
    obtain ⟨before, after, hpoints, hend, hopen, hcategory⟩ :=
      offends_of_ofTokens (scan_of_scanSource hscan) h
    refine ⟨_, before, after, rfl, hpoints, fun hatEnd => ?_, fun hatEnd => ?_, ?_⟩
    · rw [hpoints.text, hend hatEnd, String.append_empty]
    · obtain ⟨hstart, hoffends⟩ := hopen hatEnd
      exact ⟨hstart, hoffends, hpoints.column_le hstart⟩
    · rw [hcategory, hscan]
      exact ⟨nofun, nofun⟩
  next e' hscan =>
    cases h
    obtain ⟨before, after, hpoints, hatEnd, hstart, hoffends, hcategory⟩ :=
      offends_of_scanSource hscan
    refine ⟨_, before, after, rfl, hpoints, fun hend => ?_, fun _ =>
      ?_, iff_of_true hcategory hscan⟩
    · rw [hatEnd] at hend
      cases hend
    · exact ⟨hstart, hoffends, hpoints.column_le hstart⟩

theorem Program.errors_point_at_text_second_line :
    let source : Source := ⟨"", "é = 'ß';\r\n/* → */ é = ;\r\n"⟩
    ∃ e, Program.ofSource source = .error e ∧
      (e.line, e.column, e.sourceLine, e.token) = (2, 13, "/* → */ é = ;", some ";") ∧
      ∃ p before after, before.utf8ByteSize = p ∧ e.PointsAt source before after ∧
        e.Offends source p after.toList ∧ e.column ≤ e.sourceLine.length := by
  intro source
  have hcomputed : (match Program.ofSource source with
      | .ok _ => none
      | .error e => some (e.line, e.column, e.sourceLine, e.token)) =
      some (2, 13, "/* → */ é = ;", some ";") := by
    decide +kernel
  cases h : Program.ofSource source with
  | ok program =>
    rw [h] at hcomputed
    cases hcomputed
  | error e =>
    rw [h] at hcomputed
    have hshown := Option.some.inj hcomputed
    have hatEnd : e.atEnd = false := by
      rw [SyntaxError.atEnd, show e.token = some ";" from congrArg (·.2.2.2) hshown]
      rfl
    obtain ⟨p, before, after, hp, hpoints, -, hopen, -⟩ := Program.errors_point_at_text h
    obtain ⟨-, hoffends, hcolumn⟩ := hopen hatEnd
    exact ⟨e, rfl, hshown, p, before, after, hp, hpoints, hoffends, hcolumn⟩

end ScriptEngine
