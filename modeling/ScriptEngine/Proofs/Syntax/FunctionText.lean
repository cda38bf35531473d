import ScriptEngine.Proofs.Syntax.Placement
import ScriptEngine.Proofs.Syntax.RoundTrip
import ScriptEngine.Proofs.Syntax.Words
import ScriptEngine.Proofs.Token.LongestMatch

/-!
# Functions read back from their text

The text of a function is put together from its names and the text of its body. In parentheses it is
scanned to a header of words that the names spell, followed by the words of the body, and these are
read as a function expression: the header word by word, the body as a copy of the block it was.
-/

namespace ScriptEngine

open Text Token Parse Grammar

namespace Lexeme

theorem next_word {c : Char} {t r : List Char} (hword : IsWord (c :: t))
    (hr : ∀ d ∈ r.head?, isWordPart d = false) : next c (t ++ r) = .ok (word (c :: t)) := by
  obtain ⟨hstart, hparts⟩ := isWord_cons_iff.mp hword
  have hquote : isQuote c = false := by
    rw [Bool.eq_false_iff]
    exact fun hquote => not_isSpelling_of_isQuote hquote t (isSpelling_of_isWord hword)
  have hdigit : Numeric.isDigit c = false := by
    rw [Bool.eq_false_iff]
    intro hdigit
    rw [isWordStart_of_isDigit hdigit] at hstart
    cases hstart
  have hall : ∀ d ∈ c :: t, isWordPart d = true :=
    List.forall_mem_cons.mpr ⟨isWordPart_of_isWordStart hstart, hparts⟩
  have hrest : r.takeWhile isWordPart = [] := by
    cases r with
    | nil => rfl
    | cons d r => exact List.takeWhile_cons_of_neg (by simp [hr d rfl])
  have htake : (c :: (t ++ r)).takeWhile isWordPart = (c :: t).takeWhile isWordPart := by
    rw [← List.cons_append, List.takeWhile_append_of_pos hall, hrest, List.append_nil,
      List.takeWhile_eq_self_iff.mpr hall]
  unfold next
  simp only [hquote, hdigit, hstart, Bool.false_eq_true, if_false, if_true, word_congr htake]

theorem takeWhile_of_isWord {w : List Char} (h : IsWord w) : w.takeWhile isWordPart = w := by
  obtain ⟨c, t, rfl, -⟩ := id h
  obtain ⟨hstart, hparts⟩ := isWord_cons_iff.mp h
  exact List.takeWhile_eq_self_iff.mpr
    (List.forall_mem_cons.mpr ⟨isWordPart_of_isWordStart hstart, hparts⟩)

def IsName (n : String) : Prop :=
  Spells (.identifier n) n.toList

theorem IsName.cases {n : String} (h : IsName n) : IsWord n.toList ∧ Keyword.ofText? n = none := by
  unfold IsName at h
  generalize n.toList = w at h
  cases h with
  | identifier hword hnot => exact ⟨hword, Keyword.ofText?_eq_none_iff.mpr hnot⟩

theorem IsName.kind_word {n : String} (h : IsName n) : (word n.toList).kind = .identifier n := by
  obtain ⟨hword, hkeyword⟩ := h.cases
  unfold word
  simp only [takeWhile_of_isWord hword, String.ofList_toList, hkeyword]

theorem isGap_of_isWordStart {c : Char} (h : isWordStart c = true) : isGap c = false ∧ c ≠ '/' := by
  constructor
  · rw [Bool.eq_false_iff]
    intro hgap
    simp only [isGap, Bool.or_eq_true, decide_eq_true_eq] at hgap
    rcases hgap with ((((rfl | rfl) | rfl) | rfl) | rfl) | rfl <;> cases h
  · rintro rfl
    cases h

end Lexeme

namespace Token

open Lexeme

theorem ScansTo.word {w j r : List Char} {ws : List Word} (h : ScansTo r ws)
    (hj : j = [] ∨ j = [' '] ∧ r ≠ []) (hw : IsWord w)
    (hr : ∀ d ∈ (j ++ r).head?, isWordPart d = false) :
    ScansTo (w ++ (j ++ r)) (((Lexeme.word w).kind, String.ofList w) :: ws) := by
  have htext : (Lexeme.word w).text = w := by rw [word_text, takeWhile_of_isWord hw]
  obtain ⟨c, t, rfl, -⟩ := id hw
  obtain ⟨hgap, hslash⟩ := isGap_of_isWordStart (isWord_cons_iff.mp hw).1
  have hscan := h.next hj ⟨hgap, fun hc => absurd hc hslash⟩ (next_word hw hr) htext
  rwa [htext] at hscan

theorem isName_of_tokenized {cs : List Char} {ws : List Word} {n : String} {w : Word}
    (h : Tokenized cs ws) (hw : w ∈ ws) (hkind : w.1 = .identifier n) : IsName n := by
  induction h with
  | finish =>
    obtain rfl := List.mem_singleton.mp hw
    cases hkind
  | token _ _ _ _ hheads _ ih =>
    rcases List.mem_cons.mp hw with rfl | hw
    · obtain rfl : _ = Kind.identifier n := hkind
      cases hheads with
      | longest hspells _ =>
        cases hspells with
        | identifier hword hnone =>
          unfold IsName
          rw [String.toList_ofList]
          exact .identifier hword hnone
    · exact ih hw

theorem isClosed_ofLexeme {c : Char} {t r : List Char} {lx : Lexeme} (p : Position)
    (hnext : Lexeme.next c (t ++ r) = .ok lx) (htext : lx.text = c :: t) (hr : r ≠ []) :
    (ofLexeme lx p).isClosed = true := by
  unfold isClosed
  split
  next value hkind =>
    have hheads := (first_of_next hnext htext).2
    have hquote : isQuote c = true := by
      rw [show lx.kind = .string value from hkind] at hheads
      cases hheads with
      | string hquote _ => exact hquote
      | longest hspells _ => cases hspells
    rw [ofLexeme, String.toList_ofList, htext]
    by_contra hopen
    exact hr (eq_nil_of_not_closes hnext htext hquote hopen)
  next => rfl

/-- Only the last token before the end of input can be an open string. -/
theorem isClosed_of_scanFrom {p : Position} {cs : List Char} {ts : List Token}
    (h : scanFrom p cs = .ok ts) {i : Nat} (hi : i + 2 < ts.length) : ts[i].isClosed = true := by
  induction i generalizing p cs ts with
  | zero =>
    obtain ⟨gap, -, rfl⟩ | ⟨gap, c, t, r, lx, us, hsplit, hnext, htext, hus, rfl⟩ :=
      scanFrom_cases h
    · simp at hi
    · refine isClosed_ofLexeme _ hnext htext ?_
      rintro rfl
      have hnothing : splitGap .blank [] = ([], []) := rfl
      rw [scanFrom_of_gap hnothing] at hus
      cases hus
      simp at hi
  | succ i ih =>
    obtain ⟨gap, -, rfl⟩ | ⟨gap, c, t, r, lx, us, hsplit, hnext, htext, hus, rfl⟩ :=
      scanFrom_cases h
    · simp at hi
    · exact ih hus (Nat.lt_of_succ_lt_succ hi)

theorem ScansTo.name {n : String} {d : Char} {r : List Char} {ws : List Word}
    (h : ScansTo (d :: r) ws) (hn : IsName n) (hd : isWordPart d = false) :
    ScansTo (n.toList ++ d :: r) (Word.name n :: ws) := by
  have hfollow : ∀ b ∈ ([] ++ d :: r).head?, isWordPart b = false := by
    rintro b ⟨⟩
    exact hd
  have hscan := h.word (.inl rfl) hn.cases.1 hfollow
  rwa [hn.kind_word, String.ofList_toList] at hscan

theorem ScansTo.comma {cs : List Char} {ws : List Word} (h : ScansTo cs ws) (hcs : cs ≠ []) :
    ScansTo (',' :: ' ' :: cs) (Word.symbol .comma :: ws) :=
  h.symbol (.inr ⟨rfl, hcs⟩) rfl (by intro s; cases s <;> decide) (by decide)

end Token

/-! ## The header of a function -/

def Ident.listWords : List Ident → List Word
  | [] => []
  | [x] => [.name x.name]
  | x :: xs => .name x.name :: .symbol .comma :: Ident.listWords xs

def Ident.wordsIfAny (x : Option Ident) : List Word :=
  x.toList.map fun x => .name x.name

def Function.header (f : Function) : List Word :=
  .keyword .function :: (Ident.wordsIfAny f.name ++
    .symbol .openParen :: (Ident.listWords f.params ++ [.symbol .closeParen]))

section Scanning

open Lexeme

theorem scansTo_names {xs : List Ident} {r : List Char} {ws : List Word}
    (hxs : ∀ x ∈ xs, IsName x.name) (h : ScansTo (')' :: r) ws) :
    ScansTo ((", ".intercalate (xs.map Ident.name)).toList ++ ')' :: r)
      (Ident.listWords xs ++ ws) := by
  induction xs with
  | nil => simpa [Ident.listWords] using h
  | cons x xs ih =>
    obtain ⟨hx, hxs⟩ := List.forall_mem_cons.mp hxs
    cases xs with
    | nil => simpa [Ident.listWords] using h.name hx (by decide)
    | cons y ys =>
      have hrest := ((ih hxs).comma (by simp)).name hx (by decide)
      simpa [Ident.listWords, List.append_assoc] using hrest

theorem scansTo_function {f : Function} {ws : List Word} {r : List Char} {c : Char}
    (hf : ∀ x ∈ f.name.toList ++ f.params, IsName x.name)
    (h : ScansTo (f.body.origin.text.toList ++ c :: r) ws) :
    ScansTo (f.text.toList ++ c :: r) (f.header ++ ws) := by
  have hclose := h.closeParen (.inr ⟨rfl, by simp⟩)
  have hparams := scansTo_names (fun x hx => hf x (List.mem_append_right _ hx)) hclose
  have hopen := hparams.openParen
  have hkeyword : ∀ {cs : List Char} {us : List Word}, ScansTo cs us → cs ≠ [] →
      ScansTo ("function".toList ++ ([' '] ++ cs)) (Word.keyword .function :: us) := by
    intro cs us hscan hcs
    have hword : IsWord "function".toList :=
      isWord_cons_iff.mpr ⟨by decide, List.all_eq_true.mp (by decide)⟩
    refine hscan.word (.inr ⟨rfl, hcs⟩) hword ?_
    rintro b ⟨⟩
    decide
  cases hname : f.name with
  | none =>
    have hscan := hkeyword hopen (by simp)
    simpa [Function.text, Function.header, hname, Ident.wordsIfAny] using hscan
  | some x =>
    have hx : IsName x.name := hf x (by simp [hname])
    have hscan := hkeyword (hopen.name hx (by decide)) (by simp)
    simpa [Function.text, Function.header, hname, Ident.wordsIfAny] using hscan

end Scanning

section Reading

variable {s : Stream} {g : Grammar} {i j : Nat}

theorem Token.Stream.shows_of_words {ws : List Word} (hlast : i + ws.length ≤ s.last)
    (h : ∀ x w, ws[x]? = some w → (s.get (i + x)).word = w) : s.Shows i ws := by
  induction ws generalizing i with
  | nil => trivial
  | cons w ws ih =>
    rw [List.length_cons] at hlast
    refine ⟨by omega, h 0 w rfl, ih (by omega) fun x v hv => ?_⟩
    rw [Nat.add_right_comm]
    exact h (x + 1) v (by simpa using hv)

theorem Token.Stream.Shows.get {ws : List Word} {w : Word} {x : Nat} (h : s.Shows i ws)
    (hx : ws[x]? = some w) : (s.get (i + x)).word = w := by
  induction ws generalizing i x with
  | nil => simp at hx
  | cons v ws ih =>
    cases x with
    | zero =>
      cases hx
      exact h.2.1
    | succ x =>
      rw [Nat.add_comm x 1, ← Nat.add_assoc]
      exact ih h.2.2 (by simpa using hx)

theorem run_expectName {n : String} (what : Expectation) (hi : i < s.last)
    (hk : s.kindAt i = .identifier n) : expectName what s i = .ok (⟨n, (s.get i).span⟩, i + 1) := by
  unfold expectName
  rw [run_bind run_kind, hk]
  exact run_bind (run_advance hi)

theorem run_names {xs : List Ident} (what : Expectation) (hne : xs ≠ [])
    (hs : s.Shows i (Ident.listWords xs)) (hj : j = i + (Ident.listWords xs).length)
    (hk : s.kindAt j ≠ .symbol .comma) {m : Nat} (hm : xs.length ≤ m) :
    ∃ xs', separated (expectName what) m s i = .ok (xs', j) ∧ Ident.sameList xs' xs = true := by
  induction xs generalizing i m with
  | nil => exact absurd rfl hne
  | cons x xs ih =>
    obtain ⟨m, rfl⟩ : ∃ k, m = k + 1 := ⟨m - 1, by rw [List.length_cons] at hm; omega⟩
    cases xs with
    | nil =>
      obtain ⟨hi, hname, -⟩ := hs
      have hread := run_expectName what hi (Stream.kindAt_of_word hname)
      obtain rfl : j = i + 1 := hj
      exact ⟨_, run_separated_last hread hk, by simp [Ident.sameList, Ident.same]⟩
    | cons y ys =>
      obtain ⟨hi, hname, hi', hcomma, hrest⟩ := hs
      have hread := run_expectName what hi (Stream.kindAt_of_word hname)
      have hlength : (Ident.listWords (x :: y :: ys)).length =
        (Ident.listWords (y :: ys)).length + 2 :=
        rfl
      obtain ⟨xs', hxs', hsame⟩ := ih (by simp) hrest (by omega) (by simpa using hm)
      refine ⟨_, run_separated_cons hread hi' (Stream.kindAt_of_word hcomma) hxs', ?_⟩
      simpa [Ident.sameList, Ident.same] using hsame

theorem Ident.length_le_listWords (xs : List Ident) : xs.length ≤ (listWords xs).length := by
  fun_induction listWords xs with
  | case1 => exact Nat.le_refl _
  | case2 => exact Nat.le_refl _
  | case3 x xs _ ih =>
    simp only [List.length_cons]
    omega

theorem Ident.listWords_cons (x : Ident) (xs : List Ident) :
    ∃ ws, listWords (x :: xs) = .name x.name :: ws := by
  cases xs <;> exact ⟨_, rfl⟩

theorem run_functionName {name : Option Ident} (hs : s.Shows i (Ident.wordsIfAny name))
    (hj : j = i + (Ident.wordsIfAny name).length) (hk : s.kindAt j = .symbol .openParen) :
    ∃ name', functionName s i = .ok (name', j) ∧ Ident.sameOption name' name = true := by
  unfold functionName
  rw [run_bind run_kind]
  cases name with
  | none =>
    obtain rfl : j = i := hj
    rw [hk]
    exact ⟨none, rfl, rfl⟩
  | some x =>
    obtain ⟨hi, hname, -⟩ := hs
    obtain rfl : j = i + 1 := hj
    have hkname := Stream.kindAt_of_word hname
    rw [hkname]
    exact ⟨_, run_bind (run_expectName _ hi hkname), by simp [Ident.sameOption, Ident.same]⟩

theorem run_functionRest {xs : List Ident} {k : Nat} {b : Block}
    (hs : s.Shows i (.symbol .openParen :: (Ident.listWords xs ++ [.symbol .closeParen])))
    (hk : k = i + (Ident.listWords xs).length + 2) (hbody : block g s k = .ok (b, j)) :
    ∃ xs', functionRest g s i = .ok ((xs', b), j) ∧ Ident.sameList xs' xs = true := by
  obtain ⟨hi, hopen, hrest⟩ := hs
  obtain ⟨m, hm, hnames, hm', hclose, -⟩ := hrest.split
  have hparams : ∃ xs', separatedBefore .closeParen (expectName .parameterName) s (i + 1) =
      .ok (xs', m) ∧ Ident.sameList xs' xs = true := by
    unfold separatedBefore
    cases xs with
    | nil =>
      obtain rfl : m = i + 1 := hm
      exact ⟨[], run_unlessAt hclose, rfl⟩
    | cons x xs =>
      have hsize : (x :: xs).length ≤ s.tokens.size + 1 := by
        have := Ident.length_le_listWords (x :: xs)
        simp only [Stream.last] at hm'
        omega
      obtain ⟨xs', hxs', hsame⟩ := run_names _ (by simp) hnames hm (by rw [hclose]; nofun) hsize
      have hfirst : s.kindAt (i + 1) ≠ .symbol .closeParen := by
        obtain ⟨ws, hws⟩ := Ident.listWords_cons x xs
        rw [hws] at hnames
        rw [Stream.kindAt_of_word hnames.2.1]
        nofun
      refine ⟨xs', ?_, hsame⟩
      rw [run_unlessAt_of_ne hfirst, run_bind run_rounds]
      exact hxs'
  obtain ⟨xs', hxs', hsame⟩ := hparams
  refine ⟨xs', ?_, hsame⟩
  unfold functionRest
  rw [run_bind (run_expect _ hi (Stream.kindAt_of_word hopen)), run_bind hxs',
    run_bind (run_expect _ hm' hclose), show m + 1 = k by omega]
  exact run_bind hbody

theorem run_primary_function {f : Function} {k : Nat} {b : Block} (hs : s.Shows i f.header)
    (hk : k = i + f.header.length) (hbody : block g s k = .ok (b, j)) (hb : b.same f.body = true) :
    ∃ f', primary g s i = .ok (.function (originAt s i j) f', j) ∧ f'.same f = true := by
  obtain ⟨hi, hkeyword, hrest⟩ := hs
  obtain ⟨hname, hparams⟩ := Stream.shows_append.mp hrest
  obtain ⟨name', hname', hsame⟩ :=
    run_functionName hname rfl (Stream.kindAt_of_word hparams.2.1)
  obtain ⟨params', hparams', hsame'⟩ := run_functionRest hparams
    (by rw [hk]; simp only [Function.header, List.length_cons, List.length_append,
      List.length_nil]; omega)
    hbody
  have hkind : (s.get i).kind = .keyword .function := congrArg Prod.fst hkeyword
  refine ⟨.mk name' params' b, ?_, ?_⟩
  · unfold primary
    rw [run_bind run_get, run_bind run_peek]
    simp only [hkind]
    rw [run_bind (run_advance hi), run_bind hname', run_bind hparams']
    rfl
  · obtain ⟨name, params, body⟩ := f
    unfold Function.same
    exact Bool.and_eq_true_iff.mpr ⟨Bool.and_eq_true_iff.mpr ⟨hsame, hsame'⟩, hb⟩

theorem kind_before_of_block {b : Block} (hs : s.Regular) (h : block g s i = .ok (b, j)) :
    0 < j ∧ s.kindAt (j - 1) = .symbol .closeBrace := by
  unfold block at h
  obtain ⟨start, _, -, h⟩ := of_run_bind h
  obtain ⟨_, _, -, h⟩ := of_run_bind h
  obtain ⟨m, _, -, h⟩ := of_run_bind h
  obtain ⟨body, k, -, h⟩ := of_run_bind h
  obtain ⟨_, k', hexpect, h⟩ := of_run_bind h
  have hk := Mirrors.kind_of_expect hexpect
  have hlt : k < s.last := Window.lt_last_source (W := .alone s hs 0) (by
    change s.kindAt k ≠ _
    rw [hk]
    nofun)
  cases (run_expect .blockEnd hlt hk).symm.trans hexpect
  rw [run_bind (run_originFrom start)] at h
  cases h
  exact ⟨Nat.succ_pos k, hk⟩

end Reading

namespace Function

variable {s : Stream} {ts : List Token} {p : Position} {cs : List Char} {f : Function}

theorem ReadIn.isName (hf : f.ReadIn s) (h : scanFrom p cs = .ok ts) (hs : s.tokens = ts.toArray) :
    ∀ x ∈ f.name.toList ++ f.params, Lexeme.IsName x.name := by
  intro x hx
  obtain ⟨i, hi⟩ := hf.names x hx
  have hmem : s.get i ∈ ts := by
    have hmin : min i s.last < s.tokens.size := by
      have := s.size_pos
      simp only [Stream.last]
      omega
    simp only [Stream.get, hs] at hmin ⊢
    simp
  exact isName_of_tokenized (tokenized_of_scanFrom h) (List.mem_map_of_mem hmem) hi

theorem isClosed_of_block {n i j : Nat} {b : Block} (h : scanFrom p cs = .ok ts)
    (hs : s.tokens = ts.toArray) (hij : i < j) (hj : j ≤ s.last)
    (hblock : block (upTo n) s i = .ok (b, j)) :
    ∀ t ∈ (ts.drop i).take (j - i), t.isClosed = true := by
  have hregular := Stream.regular_of_scanFrom h hs
  have hlast := Stream.last_of_tokens hs
  obtain ⟨-, hbrace⟩ := kind_before_of_block hregular hblock
  intro t ht
  obtain ⟨x, hx, rfl⟩ := List.mem_iff_getElem.mp ht
  rw [List.length_take, List.length_drop] at hx
  rw [List.getElem_take, List.getElem_drop]
  by_cases hx' : i + x + 2 < ts.length
  · exact isClosed_of_scanFrom h hx'
  · have hkind : ts[i + x].kind = .symbol .closeBrace := by
      rw [← Stream.get_of_tokens hs (by omega), show i + x = j - 1 by omega]
      exact hbrace
    unfold isClosed
    rw [hkind]

end Function

/-- A block that fills a window is the same block in the copy. -/
theorem reread_block {W : Window} {n n' j : Nat} {b : Block} (hlast : W.base ≤ W.source.last)
    (hj : j = W.base + W.length) (hn' : W.length < n')
    (h : block (upTo n) W.source W.base = .ok (b, j)) :
    ∃ b', block (upTo n') W.copy W.place = .ok (b', W.place + W.length) ∧ b'.same b = true := by
  have hmirrored : Mirrored W 0 (upTo n) (upTo n') := upTo_mirrored W (by omega)
  have hmirrors : Mirrors W True 0 _ _ _ := block_mirrors hmirrored
  obtain ⟨y, b', hy, -, -, ⟨-, hkept⟩, hcopied⟩ := hmirrors b j hlast h
  obtain rfl : y = W.length := by omega
  exact ⟨b', hcopied (.inr ⟨trivial, rfl⟩), hkept.1⟩

theorem reread_function {s s' : Stream} {f : Function} {n i j : Nat} (hs : s.Regular)
    (hs' : s'.Regular) (hij : i < j) (hj : j ≤ s.last)
    (hblock : block (upTo n) s i = .ok (f.body, j))
    (hlast : s'.last = f.header.length + (j - i) + 2)
    (hshows : s'.Shows 0 (.symbol .openParen ::
      (f.header ++ (s.words i (j - i) ++ [.symbol .closeParen])))) :
    ∃ o o' f', Program.statements s' = .ok [.expression o (.function o' f')] ∧
      f'.same f = true := by
  obtain ⟨-, hopen, hrest⟩ := hshows
  obtain ⟨hheader, hrest⟩ := Stream.shows_append.mp hrest
  obtain ⟨hcopy, hclose⟩ := Stream.shows_append.mp hrest
  rw [Stream.length_words] at hclose
  have hkclose := Stream.kindAt_of_word hclose.2.1
  let W : Window :=
    { source := s, copy := s', base := i, place := 0 + 1 + f.header.length, length := j - i
      regular := hs
      fits := by omega
      agrees := fun x hx => hcopy.get (Stream.getElem?_words hx)
      stops := .inr hkclose }
  obtain ⟨m, hm⟩ : ∃ m, s'.tokens.size = m + 1 :=
    ⟨s'.tokens.size - 1, by have := s'.size_pos; omega⟩
  have hdepth : W.length < m := by
    simp only [W, Stream.last] at hlast ⊢
    omega
  obtain ⟨b', hblock', hsame⟩ :=
    reread_block (W := W) (by simp only [W]; omega) (by simp only [W]; omega) hdepth hblock
  obtain ⟨f', hprimary, hsame'⟩ := run_primary_function hheader rfl hblock' hsame
  have hexpr := run_readerAt_of_le (r := 1) (g := upTo m) (by omega) (by omega) (Nat.le_refl 19)
    hprimary (by simp only [W]; omega) (by rw [hkclose]; decide)
  have hstatements := Program.statements_of_grouped hs' hm (by simp only [W]; omega)
    (Stream.kindAt_of_word hopen) hexpr hkclose
  exact ⟨_, _, f', hstatements, hsame'⟩

theorem Function.ReadIn.read_back {s : Stream} {ts : List Token} {p : Position} {cs : List Char}
    {f : Function} (hf : f.ReadIn s) (h : scanFrom p cs = .ok ts) (hs : s.tokens = ts.toArray)
    (name : String) :
    ∃ program o o' f', Program.ofSource ⟨name, "(" ++ f.text ++ ")"⟩ = .ok program ∧
      program.statements = [.expression o (.function o' f')] ∧ f'.same f = true := by
  have hnames := hf.isName h hs
  obtain ⟨n, i, j, hij, hj, horigin, hblock⟩ := hf.body
  have hbody : ScansTo (f.body.origin.text.toList ++ [')'])
      (s.words i (j - i) ++ [Word.symbol .closeParen, (.endOfInput, "")]) := by
    rw [horigin]
    exact Slice.scansTo_text h (isClosed_of_block h hs hij hj hblock) hs hij hj (.close [])
      scansTo_closeParen
  have hscan : ScansTo ("(" ++ f.text ++ ")").toList
      ((Word.symbol .openParen :: (f.header ++ (s.words i (j - i) ++ [Word.symbol .closeParen]))) ++
        [(.endOfInput, "")]) := by
    simpa using (scansTo_function hnames hbody).openParen
  obtain ⟨s', hs', hlast, hwords, hparse⟩ := Program.stream_of_scansTo name hscan
  have hshows := Stream.shows_of_words (Nat.le_of_eq ((Nat.zero_add _).trans hlast.symm))
    fun x w hw => by simpa using hwords x w hw
  simp only [List.length_cons, List.length_append, Stream.length_words, List.length_nil] at hlast
  obtain ⟨o, o', f', hstatements, hsame⟩ :=
    reread_function (Stream.regular_of_scanFrom h hs) hs' hij hj hblock (by omega) hshows
  obtain ⟨program, hprogram, hbody⟩ := hparse _ hstatements
  exact ⟨program, o, o', f', hprogram, hbody, hsame⟩

end ScriptEngine
