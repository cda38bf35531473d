import ScriptEngine.Proofs.Token.Lexemes
import ScriptEngine.Syntax.Print
import ScriptEngine.Token.Scan
import ScriptEngine.Token.Slice

/-!
# Scanning spelled tokens

Tokens that were scanned from a text, spelled with a blank where the text had a gap, are scanned
again with the same words. Where there was no gap the spelling goes on as the text did, up to the
next blank or to its end, so every lexeme is followed by what followed it in the text or by
something that cuts it off.
-/

namespace ScriptEngine

open Text SyntaxError

def Token.isClosed (t : Token) : Bool :=
  match t.kind with
  | .string _ =>
    match t.text.toList with
    | quote :: cs => Lexeme.closes quote cs
    | [] => false
  | _ => true

namespace Lexeme

theorem splitGap_of_gap {c : Char} (hc : isGap c = true) (cs : List Char) :
    splitGap .blank (c :: cs) = (c :: (splitGap .blank cs).1, (splitGap .blank cs).2) := by
  have hslash : c ≠ '/' := by
    rintro rfl
    cases hc
  rw [splitGap]
  · simp [hc]
  · exact fun _ h => absurd h hslash
  · exact fun _ h => absurd h hslash

def Starts (c : Char) (cs : List Char) : Prop :=
  isGap c = false ∧ (c = '/' → ∀ b ∈ cs.head?, b ≠ '/' ∧ b ≠ '*')

theorem starts_of_splitGap {mode : Skipping} {text : List Char} {c : Char} {cs : List Char}
    (h : (splitGap mode text).2 = c :: cs) : Starts c cs := by
  fun_induction splitGap mode text with
  | case1 => cases h
  | case2 _ _ _ hsplit ih => exact ih (by rw [hsplit]; exact h)
  | case3 _ _ _ hsplit ih => exact ih (by rw [hsplit]; exact h)
  | case4 _ _ _ _ _ _ _ hsplit ih => exact ih (by rw [hsplit]; exact h)
  | case5 b bs hline hblock hgap =>
    cases h
    refine ⟨by simpa using hgap, fun hc a ha => ⟨?_, ?_⟩⟩
    · rintro rfl
      obtain ⟨bs, rfl⟩ := List.head?_eq_some_iff.mp ha
      exact hline bs hc rfl
    · rintro rfl
      obtain ⟨bs, rfl⟩ := List.head?_eq_some_iff.mp ha
      exact hblock bs hc rfl
  | case6 _ _ _ _ hsplit ih => exact ih (by rw [hsplit]; exact h)
  | case7 _ _ _ hsplit ih => exact ih (by rw [hsplit]; exact h)
  | case8 _ _ _ _ _ hsplit ih => exact ih (by rw [hsplit]; exact h)

theorem splitGap_of_starts {c : Char} {cs : List Char} (h : Starts c cs) :
    splitGap .blank (c :: cs) = ([], c :: cs) := by
  rw [splitGap]
  · simp [h.1]
  · rintro cs' rfl rfl
    exact (h.2 rfl '/' rfl).1 rfl
  · rintro cs' rfl rfl
    exact (h.2 rfl '*' rfl).2 rfl

theorem Starts.cut {c : Char} {u z d : List Char} (h : Starts c (u ++ z)) (hd : Cut d) :
    Starts c (u ++ d) := by
  refine ⟨h.1, fun hc b hb => ?_⟩
  cases u with
  | nil =>
    cases hd with
    | done => cases hb
    | blank => cases hb; decide
    | close => cases hb; decide
  | cons a u => exact h.2 hc b hb

end Lexeme

namespace Token

open Lexeme

theorem scanFrom_of_gap {p : Position} {cs gap : List Char}
    (hsplit : splitGap .blank cs = (gap, [])) :
    scanFrom p cs = .ok [atEnd (p.advance gap)] := by
  unfold scanFrom
  split
  next => rw [hsplit]
  next hcons =>
    rw [hsplit] at hcons
    cases hcons

theorem scanFrom_of_next {p : Position} {gap t r : List Char} {c : Char} {lx : Lexeme}
    {cs : List Char} {ts : List Token} (hsplit : splitGap .blank cs = (gap, c :: (t ++ r)))
    (hnext : next c (t ++ r) = .ok lx) (htext : lx.text = c :: t)
    (h : scanFrom ((p.advance gap).advance lx.text) r = .ok ts) :
    scanFrom p cs = .ok (ofLexeme lx (p.advance gap) :: ts) := by
  have hdrop : (t ++ r).drop (lx.text.length - 1) = r := by simp [htext]
  unfold scanFrom
  split
  next hnil =>
    rw [hsplit] at hnil
    cases hnil
  next hcons =>
    rw [hsplit] at hcons
    cases hcons
    rw [hnext, hsplit]
    dsimp only
    rw [hdrop, h]

theorem scanFrom_cases {p : Position} {cs : List Char} {ts : List Token}
    (h : scanFrom p cs = .ok ts) :
    (∃ gap, splitGap .blank cs = (gap, []) ∧ ts = [atEnd (p.advance gap)]) ∨
      ∃ gap c t r lx us, splitGap .blank cs = (gap, c :: (t ++ r)) ∧ next c (t ++ r) = .ok lx ∧
        lx.text = c :: t ∧ scanFrom ((p.advance gap).advance lx.text) r = .ok us ∧
        ts = ofLexeme lx (p.advance gap) :: us := by
  unfold scanFrom at h
  split at h
  next hnil =>
    cases h
    exact .inl ⟨_, Prod.ext rfl hnil, rfl⟩
  next c rest hcons =>
    dsimp only at h
    split at h
    next => cases h
    next lx hnext =>
      obtain ⟨t, r, htext, rfl⟩ := next_isPrefix hnext
      have hdrop : (t ++ r).drop (lx.text.length - 1) = r := by simp [htext]
      rw [hdrop] at h
      split at h
      next => cases h
      next us hus =>
        cases h
        exact .inr ⟨_, c, t, r, lx, us, Prod.ext rfl hcons, hnext, htext, hus, rfl⟩

/-- What stands between a token and the ones that follow it. -/
def joint (t : Token) : List Token → List Char
  | [] => []
  | u :: _ => if t.span.stop < u.span.start then [' '] else []

theorem toList_spell_cons (t : Token) (ts : List Token) :
    (spell (t :: ts)).toList = t.text.toList ++ (joint t ts ++ (spell ts).toList) := by
  cases ts with
  | nil => simp [spell, joint]
  | cons u ts =>
    simp only [spell, joint, String.toList_append, List.append_assoc]
    split <;> rfl

/-- A text has these words, wherever it stands. It begins with the first of them, and its tokens are
spelled as it is written, with the end of input and without it. -/
def ScansTo (cs : List Char) (ws : List Word) : Prop :=
  ∀ p, ∃ ts, scanFrom p cs = .ok ts ∧ ts.map word = ws ∧
    ((spell ts).toList = cs ∧ (spell ts.dropLast).toList = cs) ∧
    ∃ t ∈ ts.head?, t.span.start = p.offset

theorem scansTo_nil : ScansTo [] [(.endOfInput, "")] := by
  intro p
  have hend : scanFrom p [] = .ok [atEnd (p.advance [])] := scanFrom_of_gap rfl
  exact ⟨_, hend, rfl, ⟨rfl, rfl⟩, _, rfl, rfl⟩

theorem scanFrom_blank {p : Position} {cs : List Char} {ts : List Token}
    (h : scanFrom (p.step ' ') cs = .ok ts) : scanFrom p (' ' :: cs) = .ok ts := by
  have hsplit := splitGap_of_gap (c := ' ') rfl cs
  obtain ⟨gap, hgap, rfl⟩ | ⟨gap, c, t, r, lx, us, hgap, hnext, htext, hus, rfl⟩ := scanFrom_cases h
  · rw [hgap] at hsplit
    exact scanFrom_of_gap hsplit
  · rw [hgap] at hsplit
    exact scanFrom_of_next hsplit hnext htext hus

theorem ScansTo.behind {cs j : List Char} {ws : List Word} (h : ScansTo cs ws)
    (hj : j = [] ∨ j = [' '] ∧ cs ≠ []) (p : Position) :
    ∃ ts, scanFrom p (j ++ cs) = .ok ts ∧ ts.map word = ws ∧ ts ≠ [] ∧
      ∀ t, t.span.stop = p.offset → joint t ts ++ (spell ts).toList = j ++ cs ∧
        joint t ts.dropLast ++ (spell ts.dropLast).toList = j ++ cs := by
  rcases hj with rfl | ⟨rfl, hne⟩
  · obtain ⟨ts, hts, hws, hspell, u, hu, hstart⟩ := h p
    obtain ⟨us, rfl⟩ := List.head?_eq_some_iff.mp hu
    refine ⟨_, hts, hws, nofun, fun t ht => ?_⟩
    have htouches : ¬t.span.stop < u.span.start := by omega
    rw [hspell.1, hspell.2, joint, if_neg htouches]
    cases us with
    | nil => exact ⟨rfl, rfl⟩
    | cons v us =>
      rw [List.dropLast_cons_cons, joint, if_neg htouches]
      exact ⟨rfl, rfl⟩
  · obtain ⟨ts, hts, hws, hspell, u, hu, hstart⟩ := h (p.step ' ')
    obtain ⟨us, rfl⟩ := List.head?_eq_some_iff.mp hu
    refine ⟨_, scanFrom_blank hts, hws, nofun, fun t ht => ?_⟩
    have hblank : t.span.stop < u.span.start := by
      rw [ht, hstart, Position.offset_step]
      exact Nat.lt_add_of_pos_right (Char.utf8Size_pos _)
    rw [hspell.1, hspell.2, joint, if_pos hblank]
    cases us with
    | nil => exact absurd hspell.2.symm hne
    | cons v us =>
      rw [List.dropLast_cons_cons, joint, if_pos hblank]
      exact ⟨rfl, rfl⟩

theorem ScansTo.next {c : Char} {t j r : List Char} {lx : Lexeme} {ws : List Word}
    (h : ScansTo r ws) (hj : j = [] ∨ j = [' '] ∧ r ≠ []) (hstarts : Starts c (t ++ (j ++ r)))
    (hnext : Lexeme.next c (t ++ (j ++ r)) = .ok lx) (htext : lx.text = c :: t) :
    ScansTo (c :: t ++ (j ++ r)) ((lx.kind, String.ofList lx.text) :: ws) := by
  intro p
  obtain ⟨ts, hts, hws, hne, hspell⟩ := h.behind hj (p.advance lx.text)
  have htoken : (ofLexeme lx p).text.toList = c :: t := by
    rw [ofLexeme, String.toList_ofList, htext]
  refine ⟨ofLexeme lx p :: ts, ?_, by rw [List.map_cons, hws]; rfl, ⟨?_, ?_⟩, _, rfl, rfl⟩
  · exact scanFrom_of_next (splitGap_of_starts hstarts) hnext htext hts
  · rw [toList_spell_cons, (hspell _ rfl).1, htoken]
  · rw [List.dropLast_cons_of_ne_nil hne, toList_spell_cons, (hspell _ rfl).2, htoken]

theorem longest?_of_alone {s : Symbol} {c : Char} (hs : s.chars = [c])
    (halone : ∀ s' : Symbol, s'.chars.head? = some c → s' = s) (cs : List Char) :
    Symbol.longest? (c :: cs) = some s := by
  cases h : Symbol.longest? (c :: cs) with
  | none =>
    have hnone := List.find?_eq_none.mp h s (Symbol.mem_all s)
    simp [hs] at hnone
  | some s' =>
    have hinitial := List.isPrefixOf_iff_prefix.mp (Symbol.isPrefixOf_of_longest? h)
    obtain ⟨b, bs, hchars⟩ := List.exists_cons_of_ne_nil (chars_ne_nil s')
    rw [hchars] at hinitial
    have hb := (List.cons_prefix_cons.mp hinitial).1
    rw [halone s' (by rw [hchars, hb]; rfl)]

theorem ScansTo.symbol {s : Symbol} {c : Char} {j cs : List Char} {ws : List Word}
    (h : ScansTo cs ws)
    (hj : j = [] ∨ j = [' '] ∧ cs ≠ []) (hs : s.chars = [c])
    (halone : ∀ s' : Symbol, s'.chars.head? = some c → s' = s)
    (hc : isQuote c = false ∧ Numeric.isDigit c = false ∧ isWordStart c = false ∧ isGap c = false ∧
      c ≠ '/') :
    ScansTo (c :: (j ++ cs)) (Word.symbol s :: ws) := by
  obtain ⟨hquote, hdigit, hstart, hgap, hslash⟩ := hc
  have hnext : Lexeme.next c (j ++ cs) = .ok ⟨.symbol s, s.chars⟩ := by
    unfold Lexeme.next
    simp only [hquote, hdigit, hstart, Bool.false_eq_true, if_false, longest?_of_alone hs halone]
  have hscan : ScansTo (c :: [] ++ (j ++ cs)) _ :=
    h.next hj ⟨hgap, fun hc => absurd hc hslash⟩ hnext hs
  rw [Symbol.chars, String.ofList_toList] at hscan
  exact hscan

theorem ScansTo.openParen {cs : List Char} {ws : List Word} (h : ScansTo cs ws) :
    ScansTo ('(' :: cs) (Word.symbol .openParen :: ws) :=
  h.symbol (.inl rfl) rfl (by intro s; cases s <;> decide) (by decide)

theorem ScansTo.closeParen {j cs : List Char} {ws : List Word} (h : ScansTo cs ws)
    (hj : j = [] ∨ j = [' '] ∧ cs ≠ []) :
    ScansTo (')' :: (j ++ cs)) (Word.symbol .closeParen :: ws) :=
  h.symbol hj rfl (by intro s; cases s <;> decide) (by decide)

theorem scansTo_closeParen : ScansTo [')'] [Word.symbol .closeParen, (.endOfInput, "")] :=
  scansTo_nil.closeParen (.inl rfl)

/-- Two texts go on alike until the second one is cut. -/
def Alike (r r' : List Char) : Prop :=
  ∃ q z d, r = q ++ z ∧ r' = q ++ d ∧ Cut d

theorem alike_of_cut {r d : List Char} (hd : Cut d) : Alike r d :=
  ⟨[], r, d, rfl, rfl, hd⟩

theorem Alike.append {r r' : List Char} (h : Alike r r') (u : List Char) :
    Alike (u ++ r) (u ++ r') := by
  obtain ⟨q, z, d, rfl, rfl, hd⟩ := h
  exact ⟨u ++ q, z, d, by simp, by simp, hd⟩

theorem offset_lt_advance {p : Position} {cs : List Char} (h : cs ≠ []) :
    p.offset < (p.advance cs).offset := by
  induction cs generalizing p with
  | nil => exact absurd rfl h
  | cons c cs ih =>
    have hstep : p.offset < (p.step c).offset := by
      rw [Position.offset_step]
      have := c.utf8Size_pos
      omega
    by_cases hcs : cs = []
    · subst hcs
      exact hstep
    · exact Nat.lt_trans hstep (ih hcs)

theorem alike_spell {n : Nat} {t : Token} {p : Position} {r d : List Char} {ts : List Token}
    (ht : t.span.stop = p.offset) (h : scanFrom p r = .ok ts) (hn : n < ts.length) (hd : Cut d) :
    Alike r (joint t (ts.take n) ++ ((spell (ts.take n)).toList ++ d)) := by
  induction n generalizing t p r ts with
  | zero => exact alike_of_cut hd
  | succ n ih =>
    obtain ⟨gap, -, rfl⟩ | ⟨gap, c, u, r', lx, us, hsplit, -, htext, hus, rfl⟩ := scanFrom_cases h
    · simp at hn
    · rw [List.take_succ_cons, joint, toList_spell_cons]
      by_cases hgap : gap = []
      · subst hgap
        have hr : r = lx.text ++ r' := by
          have := splitGap_append .blank r
          rw [hsplit] at this
          rw [← this, htext]
          rfl
        have hjoint : ¬t.span.stop < (ofLexeme lx (p.advance [])).span.start := by
          rw [ht]
          exact Nat.lt_irrefl _
        rw [if_neg hjoint, hr]
        have hrest := ih (t := ofLexeme lx (p.advance [])) rfl hus (Nat.lt_of_succ_lt_succ hn)
        simpa [ofLexeme] using hrest.append lx.text
      · have hjoint : t.span.stop < (ofLexeme lx (p.advance gap)).span.start := by
          rw [ht]
          exact offset_lt_advance hgap
        rw [if_pos hjoint]
        exact alike_of_cut (.blank _)

theorem closes_of_isClosed {c : Char} {cs t : List Char} {lx : Lexeme} {p : Position}
    (hnext : Lexeme.next c cs = .ok lx) (htext : lx.text = c :: t)
    (h : (ofLexeme lx p).isClosed = true) (hquote : isQuote c = true) : closes c t = true := by
  unfold Lexeme.next at hnext
  rw [if_pos hquote] at hnext
  cases hnext
  simp only [isClosed, ofLexeme, String.toList_ofList] at h
  rw [← (List.cons.inj htext).2]
  exact h

theorem eq_nil_of_not_closes {c : Char} {t r : List Char} {lx : Lexeme}
    (hnext : Lexeme.next c (t ++ r) = .ok lx) (htext : lx.text = c :: t) (hquote : isQuote c = true)
    (hopen : closes c t ≠ true) : r = [] := by
  unfold Lexeme.next at hnext
  rw [if_pos hquote] at hnext
  cases hnext
  have ht := (List.cons.inj htext).2
  have hclosing : closes c (t ++ r) ≠ true := fun hcloses =>
    hopen (by rw [← ht]; exact closes_takeString hcloses)
  have hall := takeString_of_not_closes hclosing
  rw [ht] at hall
  exact List.append_right_eq_self.mp hall.symm

theorem joint_cases {n : Nat} {p : Position} {cs : List Char} {ts : List Token}
    (h : scanFrom p cs = .ok ts) (hn : n < ts.length) (t : Token) (d : List Char) :
    joint t (ts.take n) = [] ∨
      joint t (ts.take n) = [' '] ∧ (spell (ts.take n)).toList ++ d ≠ [] := by
  obtain ⟨gap, -, rfl⟩ | ⟨gap, c, w, r, lx, us, -, -, htext, -, rfl⟩ := scanFrom_cases h
  · obtain rfl : n = 0 := by simpa using hn
    exact .inl rfl
  · cases n with
    | zero => exact .inl rfl
    | succ n =>
      rw [List.take_succ_cons, toList_spell_cons, joint]
      split
      · refine .inr ⟨rfl, ?_⟩
        rw [ofLexeme, String.toList_ofList, htext]
        nofun
      · exact .inl rfl

/-- The first tokens of a text, spelled, have the same words again. A string that the text leaves
open must stay the end of it. -/
theorem scansTo_spell {n : Nat} {p : Position} {cs d : List Char} {ts : List Token} {ws : List Word}
    (h : scanFrom p cs = .ok ts) (hn : n < ts.length)
    (hclosed : d ≠ [] → ∀ t ∈ ts.take n, t.isClosed = true) (hd : Cut d) (hscan : ScansTo d ws) :
    ScansTo ((spell (ts.take n)).toList ++ d) ((ts.take n).map word ++ ws) := by
  induction n generalizing p cs ts with
  | zero => simpa [spell] using hscan
  | succ n ih =>
    obtain ⟨gap, -, rfl⟩ | ⟨gap, c, t, r, lx, us, hsplit, hnext, htext, hus, rfl⟩ :=
      scanFrom_cases h
    · simp at hn
    · rw [List.take_succ_cons] at hclosed ⊢
      simp only [List.forall_mem_cons] at hclosed
      have hn' := Nat.lt_of_succ_lt_succ hn
      have hrest := ih hus hn' fun hd => (hclosed hd).2
      have hspell : (spell (ofLexeme lx (p.advance gap) :: us.take n)).toList ++ d = c :: t ++
          (joint (ofLexeme lx (p.advance gap)) (us.take n) ++
            ((spell (us.take n)).toList ++ d)) := by
        rw [toList_spell_cons, ofLexeme, String.toList_ofList, htext]
        simp only [List.append_assoc]
      rw [hspell]
      have hsource : Starts c (t ++ r) := starts_of_splitGap (by rw [hsplit])
      obtain ⟨q, z, d', rfl, hspelled, hd'⟩ :=
        alike_spell (t := ofLexeme lx (p.advance gap)) rfl hus hn' hd
      by_cases hopen : isQuote c = true ∧ closes c t ≠ true
      · -- the string goes to the end of the text, so nothing follows it in the spelling
        have hnil := eq_nil_of_not_closes hnext htext hopen.1 hopen.2
        have hdone : d = [] := by
          by_contra hne
          exact hopen.2 (closes_of_isClosed hnext htext (hclosed hne).1 hopen.1)
        rw [hnil] at hus hnext hsource
        have hlast : us = [atEnd ((p.advance gap).advance lx.text)] := by
          have hnothing : splitGap .blank [] = ([], []) := rfl
          rw [scanFrom_of_gap hnothing] at hus
          exact (Except.ok.inj hus).symm
        obtain rfl : n = 0 := by
          rw [hlast] at hn'
          simpa using hn'
        subst hdone
        exact hrest.next (.inl rfl) hsource hnext htext
      · have hclosing : isQuote c = true → closes c t = true := by
          simpa only [not_and, not_not] using hopen
        have hnext' := next_cut hd' htext hclosing hnext
        rw [← List.append_assoc] at hsource
        have hstarts := hsource.cut hd'
        rw [List.append_assoc] at hstarts
        rw [← hspelled] at hstarts hnext'
        exact hrest.next (joint_cases hus hn' _ d) hstarts hnext' htext

end Token

end ScriptEngine
