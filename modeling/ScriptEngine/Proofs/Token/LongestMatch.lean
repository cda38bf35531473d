import ScriptEngine.Proofs.Token.LexicalGrammar
import ScriptEngine.Proofs.Token.Positions

/-!
# Longest match

A scan follows the lexical grammar: behind a gap, which ends where neither blank space nor a comment
begins, it takes the first lexeme and goes on behind that. It fails exactly when it comes to a text
that has no first lexeme.
-/

namespace ScriptEngine

open Text

namespace Lexeme

section Gaps

theorem splitGap_line {body : List Char} (h : '\n' ∉ body) (cs : List Char) :
    splitGap .line (body ++ '\n' :: cs) =
      (body ++ '\n' :: (splitGap .blank cs).1, (splitGap .blank cs).2) := by
  induction body with
  | nil => simp [splitGap]
  | cons c body ih =>
    have hc : c ≠ '\n' := fun hc => h (by simp [hc])
    have hbody : '\n' ∉ body := fun hbody => h (List.mem_cons_of_mem c hbody)
    rw [List.cons_append, splitGap]
    simp only [if_neg hc, ih hbody, List.cons_append]

theorem splitGap_block {body : List Char} (h : ¬['*', '/'] <:+: body) (cs : List Char) :
    splitGap .block (body ++ '*' :: '/' :: cs) =
      (body ++ '*' :: '/' :: (splitGap .blank cs).1, (splitGap .blank cs).2) := by
  induction body with
  | nil => simp [splitGap]
  | cons c body ih =>
    have hbody : ¬['*', '/'] <:+: body := fun hbody =>
      h (hbody.trans (List.suffix_cons c body).isInfix)
    -- the comment would end here if the body held its end
    have hopen : ∀ rest, c = '*' → body ++ '*' :: '/' :: cs = '/' :: rest → False := by
      rintro rest rfl hrest
      cases body with
      | nil => cases hrest
      | cons d body =>
        obtain rfl : d = '/' := (List.cons.inj hrest).1
        exact h (List.infix_cons_iff.mpr (.inl (List.prefix_append ['*', '/'] body)))
    rw [List.cons_append, splitGap]
    · simp only [ih hbody, List.cons_append]
    · exact fun rest hc hrest => hopen rest hc hrest

theorem splitGap_of_gap_append {gap : List Char} (hgap : Gap False gap) {c : Char} {cs : List Char}
    (hstarts : Starts c cs) : splitGap .blank (gap ++ c :: cs) = (gap, c :: cs) := by
  induction hgap with
  | nil => exact splitGap_of_starts hstarts
  | blank hc _ ih => rw [List.cons_append, splitGap_of_gap hc, ih]
  | @line body gap hbody _ ih =>
    have hline := splitGap_line hbody (gap ++ c :: cs)
    rw [ih] at hline
    simp only [List.cons_append, List.append_assoc, splitGap, hline]
  | @block body gap hbody _ ih =>
    have hblock := splitGap_block hbody (gap ++ c :: cs)
    rw [ih] at hblock
    simp only [List.cons_append, List.append_assoc, splitGap, hblock]
  | openLine hfinal => exact hfinal.elim
  | openBlock hfinal => exact hfinal.elim

end Gaps

section Uniqueness

theorem takeString_of_unclosed {quote : Char} {cs value : List Char}
    (h : Unclosed quote cs value) (tail : List Char) :
    takeString quote (cs ++ tail) =
      (cs ++ (takeString quote tail).1, value ++ (takeString quote tail).2) := by
  induction h with
  | nil => rfl
  | plain hc hne _ ih =>
    rw [List.cons_append, takeString_cons hc, if_neg hne, ih]
    rfl
  | escape _ ih => simp only [List.cons_append, takeString, ih]

theorem takeString_of_endsString {quote : Char} (hquote : isQuote quote = true)
    {cs value rest : List Char} (h : EndsString quote cs value rest) :
    takeString quote (cs ++ rest) = (cs, value) := by
  have hne : quote ≠ '\\' := by
    rintro rfl
    cases hquote
  cases h with
  | closed h =>
    rw [List.append_assoc, List.singleton_append, takeString_of_unclosed h, takeString_cons hne,
      if_pos rfl, List.append_nil]
  | atEnd h =>
    rw [takeString_of_unclosed h]
    simp [takeString]
  | atBackslash h =>
    rw [List.append_assoc, takeString_of_unclosed h]
    simp [takeString]

theorem not_isSpelling_of_isQuote {c : Char} (hc : isQuote c = true) (w : List Char) :
    ¬IsSpelling (c :: w) := by
  have hcases : c = '"' ∨ c = '\x27' := by simpa [isQuote] using hc
  have hothers : isWordStart c = false ∧ Numeric.isDigit c = false := by
    rcases hcases with rfl | rfl <;> decide
  intro h
  rcases isSpelling_cases h with ⟨-, hstart⟩ | ⟨-, hdigit⟩ | ⟨s, hs⟩
  · rw [hothers.1] at hstart
    cases hstart
  · rw [hothers.2] at hdigit
    cases hdigit
  · obtain ⟨b, bs, hchars, hquote, -⟩ := symbol_head s
    obtain rfl : b = c := (List.cons.inj (hchars.symm.trans hs)).1
    rw [hquote] at hc
    cases hc

theorem Heads.unique {kind kind' : Token.Kind} {w w' rest rest' : List Char} (h : Heads kind w rest)
    (h' : Heads kind' w' rest') (htext : w ++ rest = w' ++ rest') : w = w' := by
  cases h with
  | string hquote hends =>
    cases h' with
    | string hquote' hends' =>
      obtain ⟨rfl, htail⟩ := List.cons.inj htext
      have hstring := takeString_of_endsString hquote hends
      rw [show _ ++ rest = _ ++ rest' from htail, takeString_of_endsString hquote hends'] at hstring
      rw [(Prod.mk.inj hstring).1]
    | longest hspells _ =>
      obtain ⟨b, bs, rfl⟩ := List.exists_cons_of_ne_nil (ne_nil_of_isSpelling ⟨_, hspells⟩)
      obtain rfl := (List.cons.inj htext).1
      exact absurd ⟨_, hspells⟩ (not_isSpelling_of_isQuote hquote bs)
  | longest hspells hlongest =>
    cases h' with
    | string hquote' _ =>
      obtain ⟨b, bs, rfl⟩ := List.exists_cons_of_ne_nil (ne_nil_of_isSpelling ⟨_, hspells⟩)
      obtain rfl := (List.cons.inj htext).1
      exact absurd ⟨_, hspells⟩ (not_isSpelling_of_isQuote hquote' bs)
    | longest hspells' hlongest' =>
      have hle := hlongest w' (htext ▸ List.prefix_append w' rest') ⟨_, hspells'⟩
      have hle' := hlongest' w (htext ▸ List.prefix_append w rest) ⟨_, hspells⟩
      exact List.append_inj_left htext (Nat.le_antisymm hle' hle)

end Uniqueness

/-- Where a scan looks for a token: behind the first gap of a text, or behind a first lexeme and the
gap that follows it. -/
inductive TokenStart (text : List Char) : List Char → Prop
  | first {gap cs : List Char} {c : Char} : Gap False gap → Starts c cs → text = gap ++ c :: cs →
      TokenStart text (c :: cs)
  | later {start w gap cs : List Char} {c : Char} {kind : Token.Kind} : TokenStart text start →
      ¬Refuses start → start = w ++ (gap ++ c :: cs) → Heads kind w (gap ++ c :: cs) →
      Gap False gap → Starts c cs → TokenStart text (c :: cs)

/-- The words of a text: gaps, the first lexeme behind each, and the end of input. -/
inductive Tokenized : List Char → List Word → Prop
  | finish {gap : List Char} : Gap True gap → Tokenized gap [(.endOfInput, "")]
  | token {gap cs w rest : List Char} {c : Char} {kind : Token.Kind} {ws : List Word} :
      Gap False gap → Starts c cs → ¬Refuses (c :: cs) → c :: cs = w ++ rest → Heads kind w rest →
      Tokenized rest ws → Tokenized (gap ++ c :: cs) ((kind, String.ofList w) :: ws)

theorem TokenStart.exists_cons {text start : List Char} (h : TokenStart text start) :
    ∃ c cs, start = c :: cs := by
  cases h <;> exact ⟨_, _, rfl⟩

theorem TokenStart.starts {text cs : List Char} {c : Char} (h : TokenStart text (c :: cs)) :
    Starts c cs := by
  cases h with
  | first _ hstarts _ => exact hstarts
  | later _ _ _ _ _ hstarts => exact hstarts

theorem TokenStart.behind {text start w rest : List Char} {kind : Token.Kind}
    (hstart : TokenStart text start) (hnot : ¬Refuses start) (htext : start = w ++ rest)
    (hheads : Heads kind w rest) {later : List Char} (h : TokenStart rest later) :
    TokenStart text later := by
  induction h with
  | first hgap hstarts hrest =>
    subst hrest
    exact .later hstart hnot htext hheads hgap hstarts
  | later _ hrefuses heq hheads' hgap hstarts ih =>
    exact .later ih hrefuses heq hheads' hgap hstarts

theorem Heads.isKeyword_iff {kind : Token.Kind} {w rest : List Char} (h : Heads kind w rest)
    (hword : IsWord w) :
    (kind.isKeyword = true ↔ String.ofList w ∈ Keyword.reserved) ∧
      (kind.isKeyword = true → kind.fixedText? = some (String.ofList w)) := by
  have hdigit : ∀ c v, w = c :: v → ¬Numeric.isDigit c = true := by
    rintro c v rfl hc
    have hstart := (isWord_cons_iff.mp hword).1
    rw [isWordStart_of_isDigit hc] at hstart
    cases hstart
  cases h with
  | string hquote => exact absurd (isSpelling_of_isWord hword) (not_isSpelling_of_isQuote hquote _)
  | longest hspells _ =>
    cases hspells with
    | @keyword k _ _ hmem hfixed =>
      exact ⟨iff_of_true (Token.Kind.isKeyword_keyword k) hmem, fun _ => hfixed⟩
    | identifier _ hnot => exact ⟨iff_of_false nofun hnot, nofun⟩
    | decimal hdecimal =>
      obtain ⟨c, v, rfl, -⟩ := hword
      exact absurd (isDigit_of_isDecimal hdecimal) (hdigit c v rfl)
    | radix hradix =>
      obtain ⟨_, _, _, -, -, -, -, rfl⟩ := isRadix_iff.mp hradix
      exact absurd rfl (hdigit _ _ rfl)
    | symbol s =>
      obtain ⟨b, bs, hchars, -, -, hstart⟩ := symbol_head s
      rw [hchars] at hword
      rw [(isWord_cons_iff.mp hword).1] at hstart
      cases hstart

end Lexeme

namespace Token

open Lexeme

variable {p : Position} {cs : List Char}

theorem gap_of_splitGap {gap t : List Char} {c : Char} (h : splitGap .blank cs = (gap, c :: t)) :
    Gap False gap ∧ Starts c t ∧ cs = gap ++ c :: t := by
  have hgap : Gap _ _ := skips_splitGap .blank cs
  have happend := splitGap_append .blank cs
  rw [h] at hgap happend
  exact ⟨by simpa using hgap, starts_of_splitGap (congrArg Prod.snd h), happend.symm⟩

theorem first_of_next {c : Char} {u r : List Char} {lx : Lexeme} (hnext : next c (u ++ r) = .ok lx)
    (htext : lx.text = c :: u) : ¬Refuses (c :: (u ++ r)) ∧ Heads lx.kind (c :: u) r := by
  constructor
  · intro hrefuses
    obtain ⟨refusal, hrefusal⟩ := refuses_iff.mpr hrefuses
    cases hnext.symm.trans hrefusal
  · obtain ⟨rest, hrest, hheads⟩ := heads_of_next hnext
    rw [htext] at hrest hheads
    obtain rfl : r = rest := List.append_cancel_left (List.cons.inj hrest).2
    exact hheads

theorem not_tokenStart {gap : List Char} (h : splitGap .blank cs = (gap, [])) {rest : List Char} :
    ¬TokenStart cs rest := by
  intro hstart
  induction hstart with
  | first hgap hstarts hcs =>
    rw [hcs, splitGap_of_gap_append hgap hstarts] at h
    cases h
  | later _ _ _ _ _ _ ih => exact ih

theorem tokenStart_cases {gap t r : List Char} {c : Char} {lx : Lexeme}
    (hsplit : splitGap .blank cs = (gap, c :: (t ++ r))) (hnext : next c (t ++ r) = .ok lx)
    (htext : lx.text = c :: t) {rest : List Char} (h : TokenStart cs rest) :
    rest = c :: (t ++ r) ∨ TokenStart r rest := by
  induction h with
  | first hgap hstarts hcs =>
    rw [hcs, splitGap_of_gap_append hgap hstarts] at hsplit
    exact .inl (Prod.mk.inj hsplit).2
  | later _ hrefuses hstart hheads hgap hstarts ih =>
    rcases ih with rfl | ih
    · have hw := (first_of_next hnext htext).2.unique hheads hstart
      rw [← hw, List.cons_append] at hstart
      exact .inr (.first hgap hstarts (List.append_cancel_left (List.cons.inj hstart).2))
    · exact .inr (.later ih hrefuses hstart hheads hgap hstarts)

theorem tokenStart_of_later {gap t r : List Char} {c : Char} {lx : Lexeme}
    (hsplit : splitGap .blank cs = (gap, c :: (t ++ r))) (hnext : next c (t ++ r) = .ok lx)
    (htext : lx.text = c :: t) {rest : List Char} (h : TokenStart r rest) : TokenStart cs rest := by
  obtain ⟨hgap, hstarts, hcs⟩ := gap_of_splitGap hsplit
  obtain ⟨hnot, hheads⟩ := first_of_next hnext htext
  exact (TokenStart.first hgap hstarts hcs).behind hnot rfl hheads h

theorem not_refuses_of_scanFrom {ts : List Token} (h : scanFrom p cs = .ok ts) {rest : List Char}
    (hstart : TokenStart cs rest) : ¬Refuses rest := by
  induction ts generalizing p cs with
  | nil => obtain ⟨_, -, ⟨⟩⟩ | ⟨_, _, _, _, _, _, -, -, -, -, ⟨⟩⟩ := scanFrom_cases h
  | cons t ts ih =>
    obtain ⟨gap, hsplit, -⟩ | ⟨gap, c, w, r, lx, us, hsplit, hnext, htext, hus, hts⟩ :=
      scanFrom_cases h
    · exact absurd hstart (not_tokenStart hsplit)
    · cases hts
      rcases tokenStart_cases hsplit hnext htext hstart with rfl | hlater
      · exact (first_of_next hnext htext).1
      · exact ih hus hlater

theorem scanFrom_error_cases {fault : SyntaxError.Fault} (h : scanFrom p cs = .error fault) :
    ∃ gap c t, splitGap .blank cs = (gap, c :: t) ∧
      ((∃ refusal, next c t = .error refusal ∧ fault = ofRefusal refusal (p.advance gap)) ∨
      ∃ lx u r, next c t = .ok lx ∧ lx.text = c :: u ∧ t = u ++ r ∧
        scanFrom ((p.advance gap).advance lx.text) r = .error fault) := by
  unfold scanFrom at h
  split at h
  next => cases h
  next c rest hcons =>
    refine ⟨_, c, rest, Prod.ext rfl hcons, ?_⟩
    dsimp only at h
    split at h
    next refusal hrefusal =>
      cases h
      exact .inl ⟨refusal, hrefusal, rfl⟩
    next lx hnext =>
      obtain ⟨u, r, htext, rfl⟩ := next_isPrefix hnext
      have hdrop : (u ++ r).drop (lx.text.length - 1) = r := by simp [htext]
      rw [hdrop] at h
      split at h
      next herror =>
        cases h
        exact .inr ⟨lx, u, r, hnext, htext, rfl, herror⟩
      next => cases h

theorem tokenStart_of_mem {ts : List Token} (h : scanFrom p cs = .ok ts) {t : Token} (ht : t ∈ ts)
    (hkind : t.kind ≠ .endOfInput) :
    ∃ before after, cs = before ++ after ∧ TokenStart cs after ∧ t.text.toList <+: after ∧
      t.text ≠ "" ∧ t.span = (p.advance before).spanTo
        ((p.advance before).advance t.text.toList) := by
  induction ts generalizing p cs with
  | nil => cases ht
  | cons u us ih =>
    obtain ⟨gap, -, hts⟩ | ⟨gap, c, w, r, lx, vs, hsplit, hnext, htext, hvs, hts⟩ :=
      scanFrom_cases h
    · cases hts
      obtain rfl := List.mem_singleton.mp ht
      exact absurd rfl hkind
    · cases hts
      obtain ⟨hgap, hstarts, hcs⟩ := gap_of_splitGap hsplit
      rcases List.mem_cons.mp ht with rfl | ht
      · refine ⟨gap, c :: (w ++ r), hcs, .first hgap hstarts hcs, ?_, ?_, ?_⟩
        · rw [ofLexeme, String.toList_ofList, htext]
          exact List.prefix_append (c :: w) r
        · simp [ofLexeme, htext]
        · simp [ofLexeme]
      · obtain ⟨before, after, rfl, hlater, hbegins, hne, hspan⟩ := ih hvs ht
        refine ⟨gap ++ (c :: w) ++ before, after, by simp [hcs],
          tokenStart_of_later hsplit hnext htext hlater, hbegins, hne, ?_⟩
        rw [hspan, Position.advance_append, Position.advance_append, htext]

theorem refused_of_scanFrom {fault : SyntaxError.Fault} (h : scanFrom p cs = .error fault) :
    ∃ before c t refusal, cs = before ++ c :: t ∧ TokenStart cs (c :: t) ∧
      next c t = .error refusal ∧ fault = ofRefusal refusal (p.advance before) := by
  induction hn : cs.length using Nat.strong_induction_on generalizing p cs with
  | _ n ih =>
    obtain ⟨gap, c, t, hsplit, hcases⟩ := scanFrom_error_cases h
    obtain ⟨hgap, hstarts, hcs⟩ := gap_of_splitGap hsplit
    rcases hcases with ⟨refusal, hrefusal, hfault⟩ | ⟨lx, u, r, hnext, htext, rfl, hrest⟩
    · exact ⟨gap, c, t, refusal, hcs, .first hgap hstarts hcs, hrefusal, hfault⟩
    · have hlength : r.length < n := by
        rw [← hn, hcs]
        simp only [List.length_append, List.length_cons]
        omega
      obtain ⟨before, d, t, refusal, rfl, hlater, hrefusal, hfault⟩ := ih r.length hlength hrest rfl
      refine ⟨gap ++ (c :: u) ++ before, d, t, refusal, by simp [hcs],
        tokenStart_of_later hsplit hnext htext hlater, hrefusal, ?_⟩
      rw [hfault, Position.advance_append, Position.advance_append, htext]

theorem tokenized_of_scanFrom {ts : List Token} (h : scanFrom p cs = .ok ts) :
    Tokenized cs (ts.map word) := by
  induction ts generalizing p cs with
  | nil => obtain ⟨_, -, ⟨⟩⟩ | ⟨_, _, _, _, _, _, -, -, -, -, ⟨⟩⟩ := scanFrom_cases h
  | cons t ts ih =>
    obtain ⟨gap, hsplit, hts⟩ | ⟨gap, c, w, r, lx, us, hsplit, hnext, htext, hus, hts⟩ :=
      scanFrom_cases h
    · have hgap : Gap _ _ := skips_splitGap .blank cs
      have happend := splitGap_append .blank cs
      rw [hsplit] at hgap happend
      cases hts
      rw [← happend, List.append_nil]
      exact .finish (by simpa using hgap)
    · cases hts
      obtain ⟨hgap, hstarts, hcs⟩ := gap_of_splitGap hsplit
      obtain ⟨hnot, hheads⟩ := first_of_next hnext htext
      rw [hcs, List.map_cons, word, ofLexeme, htext]
      exact .token hgap hstarts hnot rfl hheads (ih hus)

theorem isKeyword_iff_of_tokenized {ws : List Word} (h : Tokenized cs ws) {w : Word} (hw : w ∈ ws)
    (hword : IsWord w.2.toList) :
    (w.1.isKeyword = true ↔ w.2 ∈ Keyword.reserved) ∧
      (w.1.isKeyword = true → w.1.fixedText? = some w.2) := by
  induction h with
  | finish =>
    obtain rfl := List.mem_singleton.mp hw
    obtain ⟨_, _, ⟨⟩, -⟩ := hword
  | token _ _ _ _ hheads _ ih =>
    rcases List.mem_cons.mp hw with rfl | hw
    · rw [String.toList_ofList] at hword
      exact hheads.isKeyword_iff hword
    · exact ih hw

theorem scanToken_of_tokenStart {text : String} {before cs : List Char} {c : Char}
    (htext : text.toList = before ++ c :: cs) (hstart : TokenStart text.toList (c :: cs)) :
    Scanner.scanToken text.toByteArray (Position.first.advance before) =
      Scanner.located (Position.first.advance before) (next c cs) := by
  have hstands := Scanner.stands_first text
  rw [htext] at hstands
  exact Scanner.scanToken_of_next hstands.advance (splitGap_of_starts hstart.starts)

/-- The scanner accepts the lexical grammar by longest match. The words of its tokens are the first
lexemes of the text, one behind the other with gaps between them, and from every token start the
next token is the first lexeme unless the text is refused there. A word is a keyword exactly when it
is reserved, and then it is the fixed text of its kind. The scan fails exactly when some token start
is refused. -/
theorem scan_takes_longest_match (text : String) :
    (∀ ts, scan text = .ok ts → Tokenized text.toList (ts.map word) ∧
      ∀ t ∈ ts, IsWord t.text.toList →
        (t.kind.isKeyword = true ↔ t.text ∈ Keyword.reserved) ∧
        (t.kind.isKeyword = true → t.kind.fixedText? = some t.text)) ∧
    (∀ before after, text.toList = before ++ after → TokenStart text.toList after →
      let start := Position.first.advance before
      (¬Refuses after → ∃ kind w rest, after = w ++ rest ∧ Heads kind w rest ∧
        Scanner.scanToken text.toByteArray start = .ok
          (⟨kind, String.ofList w, start.spanTo (start.advance w)⟩, start.advance w)) ∧
      (Refuses after → ∃ fault, Scanner.scanToken text.toByteArray start = .error fault)) ∧
    ((∃ fault, scan text = .error fault) ↔ ∃ rest, TokenStart text.toList rest ∧ Refuses rest) := by
  refine ⟨fun ts hts => ?_, fun before after htext hstart => ?_, fun ⟨fault, hfault⟩ => ?_,
    fun ⟨rest, hstart, hrefuses⟩ => ?_⟩
  · have hwords := tokenized_of_scanFrom (scanFrom_of_scan hts)
    exact ⟨hwords, fun t ht hword =>
      isKeyword_iff_of_tokenized hwords (List.mem_map_of_mem ht) hword⟩
  · obtain ⟨c, cs, rfl⟩ := hstart.exists_cons
    intro start
    rw [scanToken_of_tokenStart htext hstart]
    cases hnext : next c cs with
    | error refusal =>
      have hrefuses := refuses_iff.mp ⟨refusal, hnext⟩
      exact ⟨fun hnot => absurd hrefuses hnot, fun _ => ⟨_, rfl⟩⟩
    | ok lx =>
      obtain ⟨rest, hrest, hheads⟩ := heads_of_next hnext
      refine ⟨fun _ => ⟨lx.kind, lx.text, rest, hrest, hheads, rfl⟩, fun hrefuses => ?_⟩
      obtain ⟨refusal, hrefusal⟩ := refuses_iff.mpr hrefuses
      cases hnext.symm.trans hrefusal
  · obtain ⟨_, c, t, refusal, -, hstart, hrefusal, -⟩ :=
      refused_of_scanFrom (scanFrom_of_scan hfault)
    exact ⟨c :: t, hstart, refuses_iff.mp ⟨refusal, hrefusal⟩⟩
  · cases hscan : scan text with
    | error fault => exact ⟨fault, rfl⟩
    | ok ts => exact absurd hrefuses (not_refuses_of_scanFrom (scanFrom_of_scan hscan) hstart)

example : (scan "0b12.5e-typeof$>>>=").toOption.map (·.map Token.text) =
    some ["0b1", "2.5", "e", "-", "typeof$", ">>>", "=", ""] := by
  decide +kernel

end Token

end ScriptEngine
