import ScriptEngine.Proofs.Layout.Programs
import ScriptEngine.Proofs.Text.Lines

/-!
# Where the input ends

A scan puts the end of input behind the tokens, at the place it has come to. To tokens without one
it is added at the place the lines of the source give: on the last line, behind its text. Both
places have the same offset and the same line. The text of a line leaves out the carriage returns at
its end, so the columns differ by the number of these. The column of the end is seen in an error
raised there and in the span of a program without tokens, and nowhere else.
-/

namespace ScriptEngine

open Token SyntaxError

namespace Text

/-- The number of carriage returns at the end of a text. -/
def trailingReturns (text : String) : Nat :=
  (text.toList.rtakeWhile (· == '\r')).length

theorem length_trimReturns_rtakeWhile (cs : List Char) :
    (trimReturns (cs.rtakeWhile (· ≠ '\n'))).length + (cs.rtakeWhile (· == '\r')).length =
      (cs.rtakeWhile (· ≠ '\n')).length := by
  have hreturns :
      (cs.rtakeWhile (· ≠ '\n')).rtakeWhile (· == '\r') = cs.rtakeWhile (· == '\r') := by
    simp only [List.rtakeWhile, List.reverse_reverse, List.takeWhile_takeWhile]
    congr 2
    funext c
    by_cases hc : c = '\r' <;> simp [hc]
  rw [← hreturns, ← List.length_append]
  exact congrArg List.length (List.rdropWhile_append_rtakeWhile (p := (· == '\r')))

/-- A scan ends where the lines say, but for the carriage returns at the end. -/
theorem behind_eq_endPosition (source : Source) :
    Position.behind source.text.toList = { source.endPosition with
      column := source.endPosition.column + trailingReturns source.text } := by
  have hlast := Source.line?_around (List.append_nil source.text.toList).symm
  have hcolumn := length_trimReturns_rtakeWhile source.text.toList
  rw [lineAround, List.takeWhile_nil, List.append_nil] at hlast
  simp only [Source.endPosition, Source.lineCount_eq, hlast, Position.behind, trailingReturns,
    Option.getD_some, String.length_ofList, String.ofList_toList, Position.mk.injEq, true_and]
  omega

theorem Span.merge_of_le {a b : Span} (h : a.start ≤ b.start) :
    a.merge b = { a with stop := max a.stop b.stop } :=
  if_neg (Nat.not_lt.mpr h)

end Text

open Text

namespace Token.Slice

theorem stop_le_size_extract (s : Slice) : s.stop ≤ (s.all.extract 0 s.stop).size := by
  have := s.stop_le_size
  simp only [Array.size_extract]
  omega

def trim (s : Slice) : Slice :=
  ⟨s.all.extract 0 s.stop, s.start, s.stop, s.start_le_stop, s.stop_le_size_extract⟩

theorem text_trim (s : Slice) : s.trim.text = s.text := by
  simp [trim, text, tokens]

end Token.Slice

def Relocation.trim : Relocation :=
  { Relocation.stay with
    slice := Slice.trim
    text_slice := Slice.text_trim }

namespace Token

variable {us : List Token} {s : Stream} {q : Position}

theorem scan_of_scanSource {source : Source} {tokens : List Token}
    (h : scanSource source = .ok tokens) : scan source.text = .ok tokens := by
  unfold scanSource at h
  split at h
  next hscan =>
    cases h
    exact hscan
  next => cases h

theorem ends_of_scan {source : Source} {tokens : List Token} (h : scan source.text = .ok tokens) :
    ∃ us, tokens = us ++ [atEnd { source.endPosition with
        column := source.endPosition.column + trailingReturns source.text }] ∧
      (∀ t ∈ us, t.kind ≠ .endOfInput) ∧ ∀ t ∈ us, t.span.start ≤ source.endPosition.offset := by
  have hlaid := laid_of_scan h
  obtain ⟨us, hends, hus⟩ := hlaid.ends
  rw [List.nil_append, behind_eq_endPosition] at hends
  refine ⟨us, hends, fun t ht => (hus t ht).1, fun t ht => Nat.le_of_lt ?_⟩
  have horder := hlaid.ordered
  rw [hends] at horder
  exact ((List.pairwise_append.mp horder).2.2 t ht _ List.mem_cons_self).1

theorem Stream.eq_of_tokens {s s' : Stream} (h : s.tokens = s'.tokens) : s = s' := by
  cases s
  cases s'
  cases h
  rfl

theorem Stream.tokens_ofTokens_of_open (hus : ∀ t ∈ us, t.kind ≠ .endOfInput) (finish : Position) :
    (ofTokens us.toArray finish).tokens = (us ++ [atEnd finish]).toArray := by
  have hopen : ¬(0 < us.toArray.size ∧ us.toArray.back?.any isEnd = true) := by
    rintro ⟨-, hend⟩
    simp only [List.back?_toArray, Option.any_eq_true, isEnd, beq_iff_eq] at hend
    obtain ⟨t, ht, hkind⟩ := hend
    exact hus t (List.mem_of_getLast? ht) hkind
  unfold ofTokens
  rw [dif_neg hopen]
  simp

theorem Stream.last_of_end (hs : s.tokens = (us ++ [atEnd q]).toArray) : s.last = us.length := by
  simp [last_of_tokens hs]

theorem Stream.get_before_end (hs : s.tokens = (us ++ [atEnd q]).toArray) {i : Nat}
    (hi : i < us.length) : s.get i = us[i] := by
  rw [get_of_tokens hs (by simp; omega), List.getElem_append_left hi]

theorem Stream.get_at_end (hs : s.tokens = (us ++ [atEnd q]).toArray) {i : Nat}
    (hi : us.length ≤ i) : s.get i = atEnd q := by
  simp [get, hs, last_of_tokens hs, Nat.min_eq_right hi]

end Token

namespace Respacing

variable {us : List Token} {s s' : Stream} {q q' : Position}
  (hs : s.tokens = (us ++ [atEnd q]).toArray) (hs' : s'.tokens = (us ++ [atEnd q']).toArray)
include hs

theorem closed_ofEnds : s.Closed := by
  rw [Stream.Closed, Stream.kindAt, Stream.get_at_end hs
    (Nat.le_of_eq (Stream.last_of_end hs).symm)]
  rfl

include hs'

theorem size_ofEnds : s'.tokens.size = s.tokens.size := by
  simp [hs, hs']

theorem word_ofEnds (i : Nat) : (s'.get i).word = (s.get i).word := by
  apply Option.some.inj
  rw [Stream.word_get hs', Stream.word_get hs]
  simp [word, Token.atEnd]

theorem get_ofEnds {i : Nat} (hi : i < s.last) : s'.get i = s.get i := by
  rw [Stream.last_of_end hs] at hi
  rw [Stream.get_before_end hs hi, Stream.get_before_end hs' hi]

theorem spanFrom_ofEnds {start stop : Nat} (hstart : start < s.last) (hstop : stop ≤ s.last) :
    Parse.spanFrom s' start stop = Parse.spanFrom s start stop := by
  simp only [Parse.spanFrom, get_ofEnds hs hs' hstart]
  split
  · rw [get_ofEnds hs hs' (by omega)]
  · rfl

theorem trim_ofEnds (start : Nat) {stop : Nat} (hstop : stop ≤ s.last) :
    (Slice.clamp s'.tokens start stop).trim = (Slice.clamp s.tokens start stop).trim := by
  rw [Stream.last_of_end hs] at hstop
  have hmin : min stop (us.length + 1) = stop := by omega
  have htake : stop - us.length = 0 := by omega
  simp [Slice.trim, Slice.clamp, hs, hs', hmin, List.take_append, htake]

/-- Streams of the same tokens with ends of input at two places. -/
def ofEnds : Respacing where
  source := s
  copy := s'
  view := .trim
  closed := closed_ofEnds hs
  size_copy := size_ofEnds hs hs'
  word_copy := word_ofEnds hs hs'
  span_copy _ hi := congrArg Token.span (get_ofEnds hs hs' hi)
  spanFrom_copy := spanFrom_ofEnds hs hs'
  slice_copy := trim_ofEnds hs hs'

end Respacing

/-- Of a fault at a token only the column can depend on where the input ends, and only there. -/
theorem SyntaxError.report_ends {us : List Token} {s s' : Stream} {q : Position} {n : Nat}
    (hs : s.tokens = (us ++ [Token.atEnd { q with column := q.column + n }]).toArray)
    (hs' : s'.tokens = (us ++ [Token.atEnd q]).toArray) (hus : ∀ t ∈ us, t.kind ≠ .endOfInput)
    (c : Cause) (k : Nat) (source : Source) :
    let e := (Fault.atToken c (s'.get k)).report source
    (Fault.atToken c (s.get k)).report source =
      { e with column := e.column + if e.atEnd then n else 0 } := by
  intro e
  by_cases hk : k < us.length
  · have hopen : e.atEnd = false := by
      have hkind := hus us[k] (List.getElem_mem hk)
      simp [e, SyntaxError.atEnd, Fault.report, Fault.atToken, Stream.get_before_end hs' hk,
        described?, isEnd, hkind]
    rw [hopen, Stream.get_before_end hs hk]
    simp only [e, Stream.get_before_end hs' hk]
    rfl
  · have hends : e.atEnd = true := by
      simp only [e, Stream.get_at_end hs' (Nat.not_lt.mp hk)]
      rfl
    rw [hends, Stream.get_at_end hs (Nat.not_lt.mp hk)]
    simp only [e, Stream.get_at_end hs' (Nat.not_lt.mp hk)]
    rfl

namespace Program

variable {us : List Token} {s s' : Stream} {q : Position} {n : Nat}

theorem ofStream_of_end {s : Stream} (h : s.kindAt 0 = .endOfInput) :
    ofStream s = .ok (.mk ⟨spanOf s, Slice.clamp s.tokens 0 s.last⟩ []) := by
  have hbody : statements s = .ok [] := by
    unfold statements
    simp only [ReaderT.run, StateT.run]
    rw [Parse.run_manyUntil_nil (by simp [h])]
  rw [ofStream, hbody]
  rfl

theorem spanOf_eq (hs : s.tokens = (us ++ [Token.atEnd q]).toArray) :
    spanOf s = (s.get 0).span.merge (Span.point q.offset q.line q.column) := by
  rw [spanOf, Stream.get_at_end hs (Nat.le_of_eq (Stream.last_of_end hs).symm)]
  rfl

theorem ofStream_ends
    (hs : s.tokens = (us ++ [Token.atEnd { q with column := q.column + n }]).toArray)
    (hs' : s'.tokens = (us ++ [Token.atEnd q]).toArray) (hus : ∀ t ∈ us, t.span.start ≤ q.offset) :
    (∃ c k, ofStream s = .error (.atToken c (s.get k)) ∧
      ofStream s' = .error (.atToken c (s'.get k))) ∨
    ∃ o body program, ofStream s' = .ok (.mk o body) ∧ ofStream s = .ok program ∧
      program.relocate .trim = (Block.mk { o with span := { o.span with
        column := o.span.column + if us.isEmpty then n else 0 } } body).relocate .trim := by
  cases us with
  | nil =>
    have hget := Stream.get_at_end hs (Nat.zero_le 0)
    have hget' := Stream.get_at_end hs' (Nat.zero_le 0)
    have hprogram := ofStream_of_end (s := s) (by rw [Stream.kindAt, hget]; rfl)
    have hprogram' := ofStream_of_end (s := s') (by rw [Stream.kindAt, hget']; rfl)
    have hspan : spanOf s = { spanOf s' with column := (spanOf s').column + n } := by
      rw [spanOf_eq hs, spanOf_eq hs', hget, hget']
      simp [Token.atEnd, Span.merge, Span.point]
    have hlast : s'.last = s.last := (Respacing.ofEnds hs hs').last_copy
    have hslice := Respacing.trim_ofEnds hs hs' 0 (Nat.le_refl s.last)
    refine .inr ⟨_, _, _, hprogram', hprogram, ?_⟩
    simp only [Block.relocate, Relocation.origin, Relocation.trim, hlast, hslice, hspan]
    rfl
  | cons t ts =>
    have hfirst : s.get 0 = t := Stream.get_before_end hs (Nat.succ_pos _)
    have hfirst' : s'.get 0 = t := Stream.get_before_end hs' (Nat.succ_pos _)
    have hspan : spanOf s' = spanOf s := by
      have hstart := hus t List.mem_cons_self
      rw [spanOf_eq hs, spanOf_eq hs', hfirst, hfirst', Span.merge_of_le hstart,
        Span.merge_of_le hstart]
      rfl
    obtain ⟨p, p', hp, hp', hsame⟩ | hfault := ofStream_alike (.ofEnds hs hs') hspan
    · obtain ⟨o, body⟩ := p'
      exact .inr ⟨o, body, p, hp', hp, hsame.symm⟩
    · exact .inl hfault

end Program

/-- Tokens are read alike with the end of input that a scan puts behind them and with one that is
added: for a text that does not end with carriage returns with the same result, and otherwise with a
result that differs by these in the column of the end of input. That column is the one of an error
raised there and of the span of a program without tokens. -/
theorem end_of_input_supplied_or_added {source : Source} {tokens : List Token}
    (h : scanSource source = .ok tokens) :
    let returns := trailingReturns source.text
    (returns = 0 → Program.ofTokens tokens.dropLast source = Program.ofTokens tokens source) ∧
    ((∃ e, Program.ofTokens tokens.dropLast source = .error e ∧
        Program.ofTokens tokens source = .error { e with
          column := e.column + if e.atEnd then returns else 0 }) ∨
      ∃ o body program, Program.ofTokens tokens.dropLast source = .ok (.mk o body) ∧
        Program.ofTokens tokens source = .ok program ∧
        program.relocate .trim = (Block.mk { o with span := { o.span with
          column := o.span.column + if tokens.dropLast.isEmpty then returns else 0 } }
            body).relocate .trim) := by
  intro returns
  have hscan := scan_of_scanSource h
  have hs := Stream.tokens_ofTokens (scanFrom_of_scan hscan) source.endPosition
  obtain ⟨us, rfl, hus, hbefore⟩ := ends_of_scan hscan
  have hs' := Stream.tokens_ofTokens_of_open hus source.endPosition
  rw [List.dropLast_concat, Program.ofTokens, Program.ofTokens]
  refine ⟨fun hreturns => ?_, ?_⟩
  · have htokens := hs
    simp only [show trailingReturns source.text = 0 from hreturns, Nat.add_zero] at htokens ⊢
    rw [Stream.eq_of_tokens (hs'.trans htokens.symm)]
  · obtain ⟨c, k, hfault, hfault'⟩ | ⟨o, body, program, hp', hp, hsame⟩ :=
      Program.ofStream_ends hs hs' hbefore
    · rw [hfault, hfault']
      exact .inl ⟨_, rfl, congrArg Except.error (report_ends hs hs' hus c k source)⟩
    · rw [hp, hp']
      exact .inr ⟨o, body, program, rfl, rfl, hsame⟩

def Program.refusedAt? : Except SyntaxError Block → Option (Nat × Nat)
  | .error e => some (e.line, e.column)
  | .ok _ => none

theorem Program.of_refusedAt? {r : Except SyntaxError Block} {line column : Nat}
    (h : refusedAt? r = some (line, column)) :
    ∃ e, r = .error e ∧ e.line = line ∧ e.column = column := by
  cases r with
  | ok => cases h
  | error e =>
    cases h
    exact ⟨e, rfl, rfl, rfl⟩

/-- The list is open where the text ends, behind a comment with two carriage returns. -/
theorem end_of_input_supplied_or_added_in_comment :
    let source : Source := ⟨unnamedSource, "f(é, [\r\n // 😀\r\r"⟩
    ∃ tokens e, scanSource source = .ok tokens ∧
      Program.ofTokens tokens.dropLast source = .error e ∧ e.line = 2 ∧ e.column = 6 ∧
      Program.ofTokens tokens source = .error { e with column := 8 } := by
  intro source
  have hplaces : (scanSource source).toOption.map (fun tokens =>
      (Program.refusedAt? (Program.ofTokens tokens.dropLast source),
        Program.refusedAt? (Program.ofTokens tokens source))) =
          some (some (2, 6), some (2, 8)) := by
    decide +kernel
  cases h : scanSource source with
  | error =>
    rw [h] at hplaces
    cases hplaces
  | ok tokens =>
    simp only [h, Except.toOption, Option.map_some, Option.some.injEq, Prod.mk.injEq] at hplaces
    obtain ⟨e, he, hline, hcolumn⟩ := Program.of_refusedAt? hplaces.1
    obtain ⟨-, ⟨e', he', hadded⟩ | ⟨o, body, -, hp, -⟩⟩ := end_of_input_supplied_or_added h
    · obtain rfl : e = e' := Except.error.inj (he.symm.trans he')
      obtain ⟨e₂, he₂, -, hcolumn₂⟩ := Program.of_refusedAt? hplaces.2
      obtain rfl := Except.error.inj (hadded.symm.trans he₂)
      rw [show _ + _ = 8 from hcolumn₂] at hadded
      exact ⟨tokens, e, rfl, he, hline, hcolumn, hadded⟩
    · exact nomatch he.symm.trans hp

/-- A carriage return behind an open parenthesis moves the end of input of the scan only. -/
theorem added_end_stands_before_returns :
    let source : Source := ⟨unnamedSource, "(\r"⟩
    ∃ tokens, scanSource source = .ok tokens ∧
      Program.refusedAt? (Program.ofTokens tokens source) = some (1, 3) ∧
      Program.refusedAt? (Program.ofTokens tokens.dropLast source) = some (1, 2) := by
  intro source
  have hplaces : (scanSource source).toOption.map (fun tokens =>
      (Program.refusedAt? (Program.ofTokens tokens source),
        Program.refusedAt? (Program.ofTokens tokens.dropLast source))) =
      some (some (1, 3), some (1, 2)) := by
    decide +kernel
  cases h : scanSource source with
  | error =>
    rw [h] at hplaces
    cases hplaces
  | ok tokens =>
    simp only [h, Except.toOption, Option.map_some, Option.some.injEq, Prod.mk.injEq] at hplaces
    exact ⟨tokens, rfl, hplaces⟩

end ScriptEngine
