import Mathlib.Data.List.DropRight
import ScriptEngine.Proofs.Token.ByteScan
import ScriptEngine.Proofs.Token.Streams

/-!
# Positions of scanned tokens

A scan loses nothing. The tokens stand in the text one behind the other, each where its span says,
with blank space and comments between them, and the end of input stands behind all of it. Lines and
columns are counted from the characters before a token.
-/

namespace ScriptEngine

namespace Text

def Position.behind (cs : List Char) : Position :=
  ⟨(String.ofList cs).utf8ByteSize, 1 + cs.count '\n', 1 + (cs.rtakeWhile (· ≠ '\n')).length⟩

namespace Position

theorem behind_concat (cs : List Char) (c : Char) : behind (cs ++ [c]) = (behind cs).step c := by
  have hsize : (String.ofList (cs ++ [c])).utf8ByteSize =
      (String.ofList cs).utf8ByteSize + c.utf8Size := by
    simp [String.ofList_append]
  unfold behind step
  rw [hsize, List.rtakeWhile_concat, List.count_append]
  by_cases hc : c = '\n'
  · subst hc
    simp [Nat.add_assoc]
  · simp [hc, Nat.add_assoc]

theorem advance_behind (as bs : List Char) : (behind as).advance bs = behind (as ++ bs) := by
  induction bs generalizing as with
  | nil => simp
  | cons b bs ih => rw [advance_cons, ← behind_concat, ih, List.append_assoc, List.singleton_append]

theorem offset_behind_append (as bs : List Char) :
    (behind (as ++ bs)).offset = (behind as).offset + (behind bs).offset := by
  simp [behind, String.ofList_append]

theorem offset_behind_pos {cs : List Char} (h : cs ≠ []) : 0 < (behind cs).offset := by
  obtain ⟨c, cs, rfl⟩ := List.exists_cons_of_ne_nil h
  rw [← List.singleton_append, offset_behind_append]
  have := c.utf8Size_pos
  simp [behind]
  omega

end Position

end Text

open Text

namespace Lexeme

/-- Blank space and comments. A comment is left open only where the text ends. -/
inductive Gap (final : Prop) : List Char → Prop
  | nil : Gap final []
  | blank {c : Char} {cs : List Char} : isGap c = true → Gap final cs → Gap final (c :: cs)
  | line {body cs : List Char} : '\n' ∉ body → Gap final cs →
      Gap final ('/' :: '/' :: (body ++ '\n' :: cs))
  | block {body cs : List Char} : ¬ ['*', '/'] <:+: body → Gap final cs →
      Gap final ('/' :: '*' :: (body ++ '*' :: '/' :: cs))
  | openLine {body : List Char} : final → '\n' ∉ body → Gap final ('/' :: '/' :: body)
  | openBlock {body : List Char} : final → ¬ ['*', '/'] <:+: body → Gap final ('/' :: '*' :: body)

/-- What is skipped from within a comment: its body, then its end and a gap, unless the text ends.
-/
def Gap.Inside (final : Prop) (stop : List Char) (bare : List Char → Prop)
    (cs : List Char) : Prop :=
  ∃ body, bare body ∧ ((∃ tail, cs = body ++ (stop ++ tail) ∧ Gap final tail) ∨ (cs = body ∧ final))

theorem Gap.Inside.cons {final : Prop} {stop : List Char} {bare : List Char → Prop} {c : Char}
    {cs : List Char} (h : Inside final stop bare cs)
    (hc : ∀ body, body <+: cs → bare body → bare (c :: body)) :
    Inside final stop bare (c :: cs) := by
  obtain ⟨body, hbody, ⟨tail, rfl, htail⟩ | ⟨rfl, hfinal⟩⟩ := h
  · exact ⟨c :: body, hc body (List.prefix_append ..) hbody, .inl ⟨tail, rfl, htail⟩⟩
  · exact ⟨c :: cs, hc cs (List.prefix_refl _) hbody, .inr ⟨rfl, hfinal⟩⟩

def Skipping.Skips (final : Prop) : Skipping → List Char → Prop
  | .blank => Gap final
  | .line => Gap.Inside final ['\n'] ('\n' ∉ ·)
  | .block => Gap.Inside final ['*', '/'] (¬ ['*', '/'] <:+: ·)

theorem skips_splitGap (mode : Skipping) (cs : List Char) :
    mode.Skips ((splitGap mode cs).2 = []) (splitGap mode cs).1 := by
  fun_induction splitGap mode cs with
  | case1 mode =>
    cases mode with
    | blank => exact .nil
    | line => exact ⟨[], by simp, .inr ⟨rfl, rfl⟩⟩
    | block => exact ⟨[], by simp, .inr ⟨rfl, rfl⟩⟩
  | case2 cs gap rest hsplit ih =>
    rw [hsplit] at ih
    obtain ⟨body, hbody, ⟨tail, rfl, htail⟩ | ⟨rfl, hfinal⟩⟩ := ih
    · exact .line hbody htail
    · exact .openLine hfinal hbody
  | case3 cs gap rest hsplit ih =>
    rw [hsplit] at ih
    obtain ⟨body, hbody, ⟨tail, rfl, htail⟩ | ⟨rfl, hfinal⟩⟩ := ih
    · exact .block hbody htail
    · exact .openBlock hfinal hbody
  | case4 c cs _ _ hc gap rest hsplit ih =>
    rw [hsplit] at ih
    exact .blank hc ih
  | case5 => exact .nil
  | case6 c cs gap rest hsplit ih =>
    rw [hsplit] at ih
    by_cases hc : c = '\n'
    · subst hc
      exact ⟨[], by simp, .inl ⟨gap, rfl, ih⟩⟩
    · rw [if_neg hc] at ih
      exact ih.cons fun body _ hbody => by simp [Ne.symm hc, hbody]
  | case7 cs gap rest hsplit ih =>
    rw [hsplit] at ih
    exact ⟨[], by simp, .inl ⟨gap, rfl, ih⟩⟩
  | case8 c cs hclose gap rest hsplit ih =>
    have happend : gap ++ rest = cs := by
      have := splitGap_append .block cs
      rwa [hsplit] at this
    rw [hsplit] at ih
    refine ih.cons fun body hbegins hbody => ?_
    rw [List.infix_cons_iff]
    rintro (hhead | hinside)
    · -- the body would go on with the end of the comment, and so would the text
      obtain ⟨rfl, hslash⟩ := List.cons_prefix_cons.mp hhead
      obtain ⟨more, hmore⟩ := hslash.trans (hbegins.trans ⟨rest, happend⟩)
      exact hclose more rfl hmore.symm
    · exact hbody hinside

end Lexeme

namespace Token

open Lexeme Position

/-- Where tokens stand in the rest of a text, the characters before it given. -/
inductive Laid : List Char → List Token → List Char → Prop
  | finish {pre gap : List Char} : Gap True gap → Laid pre [atEnd (behind (pre ++ gap))] gap
  | token {pre gap w rest : List Char} {kind : Kind} {ts : List Token} :
      Gap False gap → kind ≠ .endOfInput → w ≠ [] → Laid (pre ++ gap ++ w) ts rest →
      Laid pre (⟨kind, String.ofList w, (behind (pre ++ gap)).spanTo (behind (pre ++ gap ++ w))⟩
        :: ts)
        (gap ++ w ++ rest)

theorem laid_of_scanFrom {pre cs : List Char} {ts : List Token}
    (h : scanFrom (behind pre) cs = .ok ts) : Laid pre ts cs := by
  induction ts generalizing pre cs with
  | nil => obtain ⟨_, -, ⟨⟩⟩ | ⟨_, _, _, _, _, _, -, -, -, -, ⟨⟩⟩ := scanFrom_cases h
  | cons t ts ih =>
    obtain ⟨gap, hsplit, hts⟩ | ⟨gap, c, w, r, lx, us, hsplit, hnext, htext, hus, hts⟩ :=
      scanFrom_cases h
    all_goals
      have happend := splitGap_append .blank cs
      have hgap : Gap _ _ := skips_splitGap .blank cs
      rw [hsplit] at happend hgap
      cases hts
    · rw [advance_behind, ← happend]
      simp only [List.append_nil, eq_self] at hgap ⊢
      exact .finish hgap
    · rw [advance_behind, advance_behind, htext] at hus
      have hlaid := Laid.token (by simpa using hgap) (kind_of_next hnext).1 (by simp) (ih hus)
      rw [ofLexeme, advance_behind, advance_behind, htext, ← happend]
      simpa using hlaid

namespace Laid

variable {pre cs : List Char} {ts : List Token}

theorem ends (h : Laid pre ts cs) :
    ∃ us, ts = us ++ [atEnd (behind (pre ++ cs))] ∧
      ∀ t ∈ us, t.kind ≠ .endOfInput ∧ t.span.start < t.span.stop := by
  induction h with
  | finish => exact ⟨[], rfl, nofun⟩
  | @token pre gap w rest kind ts hgap hkind hw hlaid ih =>
    obtain ⟨us, rfl, hus⟩ := ih
    rw [← List.append_assoc, ← List.append_assoc]
    refine ⟨_, List.cons_append.symm, List.forall_mem_cons.mpr ⟨⟨hkind, ?_⟩, hus⟩⟩
    have := offset_behind_pos hw
    simp only [spanTo, offset_behind_append (pre ++ gap)]
    omega

theorem located (h : Laid pre ts cs) {t : Token} (ht : t ∈ ts) :
    ∃ before after, cs = before ++ t.text.toList ++ after ∧
      t.span = (behind (pre ++ before)).spanTo (behind (pre ++ before ++ t.text.toList)) := by
  induction h with
  | @finish pre gap =>
    obtain rfl := List.mem_singleton.mp ht
    exact ⟨gap, [], by simp [atEnd], by simp [atEnd, spanTo, Span.point]⟩
  | @token pre gap w rest kind ts hgap hkind hw hlaid ih =>
    rcases List.mem_cons.mp ht with rfl | ht
    · exact ⟨gap, rest, by simp, by simp⟩
    · obtain ⟨before, after, rfl, hspan⟩ := ih ht
      exact ⟨gap ++ w ++ before, after, by simp, by simpa using hspan⟩

theorem offset_le (h : Laid pre ts cs) {t : Token} (ht : t ∈ ts) :
    (behind pre).offset ≤ t.span.start := by
  obtain ⟨before, after, -, hspan⟩ := h.located ht
  simp only [hspan, spanTo, offset_behind_append]
  omega

theorem ordered (h : Laid pre ts cs) :
    ts.Pairwise fun t u => t.span.start < u.span.start ∧ t.span.stop ≤ u.span.start := by
  induction h with
  | finish => exact List.pairwise_singleton ..
  | @token pre gap w rest kind ts hgap hkind hw hlaid ih =>
    refine List.pairwise_cons.mpr ⟨fun u hu => ?_, ih⟩
    have hle := hlaid.offset_le hu
    have hpos := offset_behind_pos hw
    rw [offset_behind_append (pre ++ gap)] at hle
    simp only [spanTo, offset_behind_append (pre ++ gap)]
    omega

theorem gap_before (h : Laid pre ts cs) {before after : List Token} {t : Token}
    (hts : ts = before ++ t :: after) :
    ∃ as gap bs, cs = as ++ gap ++ bs ∧ Gap (bs = []) gap ∧
      (behind (pre ++ as)).offset = (before.getLast?.map (·.span.stop)).getD (behind pre).offset ∧
      (behind (pre ++ as ++ gap)).offset = t.span.start := by
  induction h generalizing before with
  | @finish pre gap hgap =>
    cases before with
    | nil =>
      cases hts
      exact ⟨[], gap, [], by simp, by simpa using hgap, by simp, by simp [atEnd, Span.point]⟩
    | cons b before =>
      have := congrArg List.length hts
      simp at this
  | @token pre gap w rest kind ts hgap hkind hw hlaid ih =>
    cases before with
    | nil =>
      cases hts
      exact ⟨[], gap, w ++ rest, by simp, by simpa [hw] using hgap, by simp, by simp [spanTo]⟩
    | cons b before =>
      obtain ⟨rfl, hrest⟩ := List.cons.inj hts
      obtain ⟨as, gap', bs, rfl, hgap', hstart, hstop⟩ := ih hrest
      refine ⟨gap ++ w ++ as, gap', bs, by simp, hgap', ?_, by simpa using hstop⟩
      rw [← List.append_assoc, ← List.append_assoc, hstart]
      cases hlast : before.getLast? <;> simp [List.getLast?_cons, hlast, spanTo]

end Laid

theorem laid_of_scan {text : String} {ts : List Token} (h : scan text = .ok ts) :
    Laid [] ts text.toList :=
  laid_of_scanFrom (scanFrom_of_scan h)

/-- A scan loses nothing: the end of input stands behind the whole text, every other token has a
span that is not empty, every token is what the text has at its span, at the line and the column
counted there, the spans follow each other, and what they leave out are gaps. -/
theorem scan_lossless {text : String} {ts : List Token} (h : scan text = .ok ts) :
    (∃ us e, ts = us ++ [e] ∧ e.kind = .endOfInput ∧
      e.span.start = text.utf8ByteSize ∧ e.span.stop = text.utf8ByteSize ∧
      ∀ t ∈ us, t.kind ≠ .endOfInput ∧ t.span.start < t.span.stop) ∧
    (∀ t ∈ ts, ∃ before after, text = before ++ t.text ++ after ∧
      t.span.start = before.utf8ByteSize ∧ t.span.stop = (before ++ t.text).utf8ByteSize ∧
      t.span.line = 1 + before.toList.count '\n' ∧
      t.span.column = 1 + (before.toList.rtakeWhile (· ≠ '\n')).length) ∧
    (ts.Pairwise fun t u => t.span.start < u.span.start ∧ t.span.stop ≤ u.span.start) ∧
    ∀ us t vs, ts = us ++ t :: vs → ∃ before gap after, text = before ++ gap ++ after ∧
      Gap (after = "") gap.toList ∧
      before.utf8ByteSize = (us.getLast?.map (·.span.stop)).getD 0 ∧
      (before ++ gap).utf8ByteSize = t.span.start := by
  have hlaid := laid_of_scan h
  refine ⟨?_, ?_, hlaid.ordered, ?_⟩
  · obtain ⟨us, hts, hus⟩ := hlaid.ends
    exact ⟨us, _, hts, rfl, by simp [atEnd, Span.point, behind],
      by simp [atEnd, Span.point, behind],
      hus⟩
  · intro t ht
    obtain ⟨before, after, htext, hspan⟩ := hlaid.located ht
    refine ⟨String.ofList before, String.ofList after,
      String.toList_injective (by simpa using htext), ?_⟩
    simp [hspan, spanTo, behind, String.ofList_append]
  · intro us t vs hts
    obtain ⟨before, gap, after, htext, hgap, hstart, hstop⟩ := hlaid.gap_before hts
    refine ⟨String.ofList before, String.ofList gap, String.ofList after,
      String.toList_injective (by simpa using htext), by simpa using hgap, hstart, ?_⟩
    rw [← hstop]
    simp [behind, String.ofList_append]

theorem scan_lossless_wide_characters :
    let text := "é /*ü\n*/ß='→'// end"
    ∃ ts, scan text = .ok ts ∧
      ts.map (fun t => (t.text, t.span)) =
        [("é", ⟨0, 2, 1, 1⟩), ("ß", ⟨10, 12, 2, 3⟩), ("=", ⟨12, 13, 2, 4⟩), ("'→'", ⟨13, 18, 2, 5⟩),
          ("", ⟨24, 24, 2, 14⟩)] ∧
      ∀ us t vs, ts = us ++ t :: vs → ∃ before gap after, text = before ++ gap ++ after ∧
        Gap (after = "") gap.toList ∧
        before.utf8ByteSize = (us.getLast?.map (·.span.stop)).getD 0 ∧
        (before ++ gap).utf8ByteSize = t.span.start := by
  intro text
  have hspans : (scan text).toOption.map (·.map fun t => (t.text, t.span)) =
      some [("é", ⟨0, 2, 1, 1⟩), ("ß", ⟨10, 12, 2, 3⟩), ("=", ⟨12, 13, 2, 4⟩),
        ("'→'", ⟨13, 18, 2, 5⟩), ("", ⟨24, 24, 2, 14⟩)] := by
    decide +kernel
  cases h : scan text with
  | error fault =>
    rw [h] at hspans
    cases hspans
  | ok ts =>
    rw [h] at hspans
    exact ⟨ts, rfl, Option.some.inj hspans, (scan_lossless h).2.2.2⟩

end Token

end ScriptEngine
