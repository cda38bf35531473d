import ScriptEngine.Proofs.Syntax.Rereading
import ScriptEngine.Proofs.Token.Respelling

/-!
# Nodes read back from their text

Every node of a program keeps the tokens it was read from. Spelled out, they are scanned to the same
words again, and these words are read as the same node: a statement by itself, an expression between
parentheses.
-/

namespace ScriptEngine

open Text Token Outline Grammar

namespace Token

def Stream.words (s : Stream) (i n : Nat) : List Word :=
  (List.range' i n).map fun x => (s.get x).word

theorem Stream.length_words (s : Stream) (i n : Nat) : (s.words i n).length = n := by
  simp [words]

theorem Stream.getElem?_words {s : Stream} {i n x : Nat} (hx : x < n) :
    (s.words i n)[x]? = some (s.get (i + x)).word := by
  simp [words, hx]

namespace Slice

variable {s : Stream} {ts : List Token} {i j : Nat}

theorem words_of_tokens (hs : s.tokens = ts.toArray) (hij : i ≤ j) (hj : j ≤ ts.length) :
    ((ts.drop i).take (j - i)).map word = s.words i (j - i) := by
  refine List.ext_getElem (by simp [Stream.words]; omega) fun x hx hx' => ?_
  have hlt : x < j - i := by simpa [Stream.words] using hx'
  simp [Stream.words, Stream.get_of_tokens hs (i := i + x) (by omega)]

theorem scansTo_text {p : Position} {cs d : List Char} {ws : List Word}
    (h : scanFrom p cs = .ok ts) (hclosed : ∀ t ∈ (ts.drop i).take (j - i), t.isClosed = true)
    (hs : s.tokens = ts.toArray) (hij : i < j) (hj : j ≤ s.last) (hd : Lexeme.Cut d)
    (hscan : ScansTo d ws) :
    ScansTo ((clamp s.tokens i j).text.toList ++ d) (s.words i (j - i) ++ ws) := by
  have hlast := Stream.last_of_tokens hs
  obtain ⟨q, ds, hrest⟩ := scanFrom_drop (i := i) h (by omega)
  rw [hs, text_clamp (by omega), ← words_of_tokens hs (by omega) (by omega)]
  exact scansTo_spell hrest (by rw [List.length_drop]; omega) (fun _ => hclosed) hd hscan

end Slice

end Token

namespace Program

theorem ofSource_of_statements {source : Source} {ts : List Token} {body : List Stmt}
    (h : scanFrom Position.first source.text.toList = .ok ts)
    (hbody : statements (Stream.ofTokens ts.toArray source.endPosition) = .ok body) :
    ∃ program, ofSource source = .ok program ∧ program.statements = body := by
  unfold ofSource scanSource
  rw [scan_eq_scanFrom, h]
  dsimp only
  unfold ofTokens ofStream
  rw [hbody]
  exact ⟨_, rfl, rfl⟩

theorem ofSource_cases {source : Source} {program : Block} (h : ofSource source = .ok program) :
    ∃ ts, scanSource source = .ok ts ∧ scanFrom Position.first source.text.toList = .ok ts ∧
      ofStream (Stream.ofTokens ts.toArray source.endPosition) = .ok program := by
  unfold ofSource at h
  split at h
  next ts hscan =>
    have hts : scanFrom Position.first source.text.toList = .ok ts := by
      unfold scanSource at hscan
      split at hscan
      next heq => cases hscan; exact scanFrom_of_scan heq
      next => cases hscan
    refine ⟨ts, hscan, hts, ?_⟩
    unfold ofTokens at h
    split at h
    next heq => cases h; exact heq
    next => cases h
  next => cases h

theorem exists_of_map {source : Source} {α : Type} {f : Block → α} {a : α}
    (h : (ofSource source).toOption.map f = some a) :
    ∃ program, ofSource source = .ok program ∧ f program = a := by
  cases hprogram : ofSource source with
  | error e =>
    rw [hprogram] at h
    cases h
  | ok program =>
    rw [hprogram] at h
    exact ⟨program, rfl, Option.some.inj h⟩

theorem stream_of_scansTo {text : String} {ws : List Word} (name : String)
    (h : ScansTo text.toList (ws ++ [(.endOfInput, "")])) :
    ∃ s : Stream, s.Regular ∧ s.last = ws.length ∧
      (∀ x w, ws[x]? = some w → (s.get x).word = w) ∧
      ∀ body, statements s = .ok body →
        ∃ program, ofSource ⟨name, text⟩ = .ok program ∧ program.statements = body := by
  obtain ⟨ts, hts, hws, -⟩ := h Position.first
  have hlength : ts.length = ws.length + 1 := by
    have := congrArg List.length hws
    simpa using this
  have htokens := Stream.tokens_ofTokens hts (Source.mk name text).endPosition
  refine ⟨_, Stream.regular_of_scanFrom hts htokens, ?_, fun x w hw => ?_, fun body hbody => ?_⟩
  · rw [Stream.last_of_tokens htokens, hlength, Nat.add_sub_cancel]
  · have hx : x < ws.length := (List.getElem?_eq_some_iff.mp hw).1
    have hword : (ts.map word)[x]? = some w := by rw [hws, List.getElem?_append_left hx, hw]
    obtain ⟨hx', heq⟩ := List.getElem?_eq_some_iff.mp hword
    rw [Stream.get_of_tokens htokens (by omega), ← heq, List.getElem_map]
  · exact ofSource_of_statements hts hbody

end Program

variable {s : Stream} {ts : List Token} {p : Position} {cs : List Char} {i j : Nat}

theorem read_back_statement {st : Stmt} (name : String) (h : scanFrom p cs = .ok ts)
    (hclosed : ∀ t ∈ ts, t.isClosed = true) (hs : s.tokens = ts.toArray) (hij : i < j)
    (hj : j ≤ s.last) (horigin : st.origin.tokens = Slice.clamp s.tokens i j)
    (hread : ReadsStmt s i st j) :
    ∃ program st', Program.ofSource ⟨name, st.origin.text⟩ = .ok program ∧
      program.statements = [st'] ∧ st'.same st = true := by
  have hslice : ∀ t ∈ (ts.drop i).take (j - i), t.isClosed = true :=
    fun t ht => hclosed t (List.mem_of_mem_drop (List.mem_of_mem_take ht))
  have hscan := Slice.scansTo_text h hslice hs hij hj .done scansTo_nil
  rw [List.append_nil] at hscan
  rw [Origin.text, horigin]
  obtain ⟨s', hs', hlast, hwords, hparse⟩ := Program.stream_of_scansTo name hscan
  rw [Stream.length_words] at hlast
  obtain ⟨st', hst', hsame⟩ :=
    reread_statement (Stream.regular_of_scanFrom h hs) hs' hij hj hread hlast
      fun x hx => hwords x _ (Stream.getElem?_words hx)
  obtain ⟨program, hprogram, hbody⟩ := hparse [st'] hst'
  exact ⟨program, st', hprogram, hbody, hsame⟩

theorem read_back_expression {e : Expr} (name : String) (h : scanFrom p cs = .ok ts)
    (hclosed : ∀ t ∈ ts, t.isClosed = true) (hs : s.tokens = ts.toArray) (hij : i < j)
    (hj : j ≤ s.last) (horigin : e.origin.tokens = Slice.clamp s.tokens i j)
    (hread : ReadsExpr s i e j) :
    ∃ program o e', Program.ofSource ⟨name, "(" ++ e.origin.text ++ ")"⟩ = .ok program ∧
      program.statements = [.expression o e'] ∧ e'.same e = true := by
  have hslice : ∀ t ∈ (ts.drop i).take (j - i), t.isClosed = true :=
    fun t ht => hclosed t (List.mem_of_mem_drop (List.mem_of_mem_take ht))
  have hinner := Slice.scansTo_text h hslice hs hij hj (.close []) scansTo_closeParen
  have hscan : ScansTo ("(" ++ e.origin.text ++ ")").toList
      ((Word.symbol .openParen :: s.words i (j - i) ++ [Word.symbol .closeParen]) ++
        [(.endOfInput, "")]) := by
    rw [Origin.text, horigin]
    simpa using hinner.openParen
  obtain ⟨s', hs', hlast, hwords, hparse⟩ := Program.stream_of_scansTo name hscan
  have hlength := Stream.length_words s i (j - i)
  have hopen : (s'.get 0).word = Word.symbol .openParen := hwords 0 _ rfl
  have hmiddle : ∀ x < j - i, (s'.get (1 + x)).word = (s.get (i + x)).word := by
    intro x hx
    refine hwords (1 + x) _ ?_
    rw [List.cons_append, Nat.add_comm, List.getElem?_cons_succ,
      List.getElem?_append_left (by omega), Stream.getElem?_words hx]
  have hclose : (s'.get (1 + (j - i))).word = Word.symbol .closeParen := by
    refine hwords (1 + (j - i)) _ ?_
    rw [List.cons_append, Nat.add_comm, List.getElem?_cons_succ,
      List.getElem?_append_right (by omega), hlength, Nat.sub_self]
    rfl
  obtain ⟨o, e', he', hsame⟩ :=
    reread_expression (Stream.regular_of_scanFrom h hs) hs' hij hj hread
      (by rw [hlast]; simp [hlength]) (congrArg Prod.fst hopen) hmiddle (congrArg Prod.fst hclose)
  obtain ⟨program, hprogram, hbody⟩ := hparse _ he'
  exact ⟨program, o, e', hprogram, hbody, hsame⟩

/-- Every statement is read back from its text, and every expression from its text in parentheses.
-/
theorem nodes_read_back {source : Source} {program : Block}
    (h : Program.ofSource source = .ok program)
    (hclosed : ∀ tokens, scanSource source = .ok tokens → ∀ t ∈ tokens, t.isClosed = true)
    (name : String) (n : Entry) (hn : n ∈ program.outline) :
    (∀ st, n.subject = .statement st →
      ∃ again st', Program.ofSource ⟨name, st.origin.text⟩ = .ok again ∧
        again.statements = [st'] ∧ st'.same st = true) ∧
    (∀ e, n.subject = .expression e →
      ∃ again o e', Program.ofSource ⟨name, "(" ++ e.origin.text ++ ")"⟩ = .ok again ∧
        again.statements = [.expression o e'] ∧ e'.same e = true) := by
  obtain ⟨ts, hscan, hts, hprogram⟩ := Program.ofSource_cases h
  have htokens := Stream.tokens_ofTokens hts source.endPosition
  have hreadIn := readIn_of_ofStream (Stream.regular_of_scanFrom hts htokens) hprogram n hn
  unfold Entry.ReadIn at hreadIn
  constructor
  · intro st hst
    rw [hst] at hreadIn
    obtain ⟨i, j, hij, hj, horigin, hread⟩ := hreadIn
    exact read_back_statement name hts (hclosed ts hscan) htokens hij hj horigin hread
  · intro e he
    rw [he] at hreadIn
    obtain ⟨i, j, hij, hj, horigin, hread⟩ := hreadIn
    exact read_back_expression name hts (hclosed ts hscan) htokens hij hj horigin hread

theorem nodes_read_back_difference :
    let source : Source := ⟨"script", "x = a - b /* c */ - 'd'"⟩
    ∃ program, Program.ofSource source = .ok program ∧
      (∀ tokens, scanSource source = .ok tokens → ∀ t ∈ tokens, t.isClosed = true) ∧
      program.outline.map (fun n => (n.label, n.text)) =
        [("Block{}", "x = a - b - 'd'"), ("ExpressionStmt", "x = a - b - 'd'"),
          ("Assign", "x = a - b - 'd'"), ("Ident", "x"), ("Binary", "a - b - 'd'"),
          ("Binary", "a - b"), ("Identifier", "a"), ("Identifier", "b"), ("String", "'d'")] ∧
      ∀ n ∈ program.outline,
        (∀ st, n.subject = .statement st →
          ∃ again st', Program.ofSource ⟨"node", st.origin.text⟩ = .ok again ∧
            again.statements = [st'] ∧ st'.same st = true) ∧
        (∀ e, n.subject = .expression e →
          ∃ again o e', Program.ofSource ⟨"node", "(" ++ e.origin.text ++ ")"⟩ = .ok again ∧
            again.statements = [.expression o e'] ∧ e'.same e = true) := by
  intro source
  have hclosed : ∀ tokens, scanSource source = .ok tokens → ∀ t ∈ tokens, t.isClosed = true := by
    have hall : (scanSource source).toOption.any (·.all isClosed) = true := by decide +kernel
    intro tokens htokens
    rw [htokens] at hall
    exact List.all_eq_true.mp hall
  have htexts : (Program.ofSource source).toOption.map (fun program =>
      program.outline.map fun n => (n.label, n.text)) =
        some [("Block{}", "x = a - b - 'd'"), ("ExpressionStmt", "x = a - b - 'd'"),
          ("Assign", "x = a - b - 'd'"), ("Ident", "x"), ("Binary", "a - b - 'd'"),
          ("Binary", "a - b"), ("Identifier", "a"), ("Identifier", "b"), ("String", "'d'")] := by
    decide +kernel
  cases h : Program.ofSource source with
  | error e =>
    rw [h] at htexts
    cases htexts
  | ok program =>
    rw [h] at htexts
    exact ⟨program, rfl, hclosed, Option.some.inj htexts, nodes_read_back h hclosed "node"⟩

end ScriptEngine
