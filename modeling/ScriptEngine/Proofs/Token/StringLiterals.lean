import ScriptEngine.Proofs.Token.LongestMatch
import ScriptEngine.Proofs.Token.StringBytes

/-!
# String literals

Where a string ends and what it stands for, without the scan: it ends at the first quote behind an
even run of backslashes, and its value is decoded character by character from what lies between the
quotes. So a text in which backslashes and quotes are escaped is read back as it was.
-/

namespace ScriptEngine

open Text

namespace Lexeme

def backslashesAtEnd (cs : List Char) : Nat :=
  (cs.rtakeWhile (· = '\\')).length

/-- At a place stands the quote, behind an even run of backslashes. -/
def ClosesAt (quote : Char) (cs : List Char) (k : Nat) : Prop :=
  cs[k]? = some quote ∧ backslashesAtEnd (cs.take k) % 2 = 0

/-- What lies between the quotes of a string and what the string takes, read off the text behind its
opening quote. -/
inductive Literal (quote : Char) (cs : List Char) : List Char → List Char → Prop
  | closed {k : Nat} : ClosesAt quote cs k → (∀ j < k, ¬ClosesAt quote cs j) →
      Literal quote cs (cs.take k) (cs.take (k + 1))
  | unclosed : (∀ k, ¬ClosesAt quote cs k) → Literal quote cs cs cs

def decode : List Char → List Char
  | [] => []
  | ['\\'] => []
  | '\\' :: c :: cs => unescape c :: decode cs
  | c :: cs => c :: decode cs

def escape (quote : Char) : List Char → List Char
  | [] => []
  | c :: cs => if c = '\\' ∨ c = quote then '\\' :: c :: escape quote cs else c :: escape quote cs

section Closing

variable {quote c : Char} {cs body taken : List Char}

theorem backslashesAtEnd_le (cs : List Char) : backslashesAtEnd cs ≤ cs.length :=
  (List.rtakeWhile_suffix _ cs).length_le

theorem backslashesAtEnd_cons (c : Char) (cs : List Char) : backslashesAtEnd (c :: cs) =
    if c = '\\' ∧ backslashesAtEnd cs = cs.length then cs.length + 1 else backslashesAtEnd cs := by
  have hrun : backslashesAtEnd cs = (cs.reverse.takeWhile (· = '\\')).length := by
    rw [backslashesAtEnd, List.rtakeWhile, List.length_reverse]
  have hcons : backslashesAtEnd (c :: cs) = ((cs.reverse ++ [c]).takeWhile (· = '\\')).length := by
    rw [backslashesAtEnd, List.rtakeWhile, List.length_reverse, List.reverse_cons]
  rw [hcons, List.takeWhile_append, List.length_reverse, ← hrun]
  by_cases hall : backslashesAtEnd cs = cs.length
  · by_cases hc : c = '\\' <;> simp [hall, hc]
  · rw [if_neg hall, if_neg fun h => hall h.2, hrun]

theorem backslashesAtEnd_plain (hc : c ≠ '\\') (cs : List Char) :
    backslashesAtEnd (c :: cs) = backslashesAtEnd cs := by
  rw [backslashesAtEnd_cons, if_neg fun h => hc h.1]

theorem backslashesAtEnd_escape (c : Char) (cs : List Char) :
    backslashesAtEnd ('\\' :: c :: cs) % 2 = backslashesAtEnd cs % 2 := by
  have hle := backslashesAtEnd_le cs
  rw [backslashesAtEnd_cons, backslashesAtEnd_cons, List.length_cons]
  -- Only a text of backslashes lets both count, and they are two.
  by_cases hrun : c = '\\' ∧ backslashesAtEnd cs = cs.length
  · rw [if_pos hrun, if_pos ⟨rfl, rfl⟩]
    omega
  · rw [if_neg hrun, if_neg fun h => by omega]

theorem closesAt_escape (quote c : Char) (cs : List Char) (k : Nat) :
    ClosesAt quote ('\\' :: c :: cs) (k + 2) ↔ ClosesAt quote cs k := by
  rw [ClosesAt, ClosesAt, List.take_succ_cons, List.take_succ_cons, backslashesAtEnd_escape]
  rfl

theorem closesAt_plain (hc : c ≠ '\\') (cs : List Char) (k : Nat) :
    ClosesAt quote (c :: cs) (k + 1) ↔ ClosesAt quote cs k := by
  rw [ClosesAt, ClosesAt, List.take_succ_cons, backslashesAtEnd_plain hc]
  rfl

theorem closesAt_zero (quote c : Char) (cs : List Char) :
    ClosesAt quote (c :: cs) 0 ↔ c = quote := by
  simp [ClosesAt, backslashesAtEnd]

/-- A string may begin with characters that do not close it and do not touch what follows. -/
theorem Literal.behind (h : Literal quote cs body taken) (head : List Char)
    (hhead : ∀ k < head.length, ¬ClosesAt quote (head ++ cs) k)
    (htail : ∀ k, ClosesAt quote (head ++ cs) (k + head.length) ↔ ClosesAt quote cs k) :
    Literal quote (head ++ cs) (head ++ body) (head ++ taken) := by
  have hfrom (k : Nat) (hk : ClosesAt quote (head ++ cs) k) :
      ∃ j, k = j + head.length ∧ ClosesAt quote cs j := by
    have hle : head.length ≤ k := Nat.le_of_not_lt fun hlt => hhead k hlt hk
    obtain ⟨j, rfl⟩ := Nat.exists_eq_add_of_le' hle
    exact ⟨j, rfl, (htail j).mp hk⟩
  cases h with
  | @closed k hcloses hfirst =>
    have htake (n : Nat) : head ++ cs.take n = (head ++ cs).take (n + head.length) := by
      rw [Nat.add_comm, List.take_length_add_append]
    rw [htake, htake, Nat.add_right_comm]
    refine .closed ((htail k).mpr hcloses) fun j hj hclosed => ?_
    obtain ⟨i, rfl, hi⟩ := hfrom j hclosed
    exact hfirst i (by omega) hi
  | unclosed hnever =>
    refine .unclosed fun k hk => ?_
    obtain ⟨j, -, hj⟩ := hfrom k hk
    exact hnever j hj

theorem Literal.escape (hquote : quote ≠ '\\') (c : Char) (h : Literal quote cs body taken) :
    Literal quote ('\\' :: c :: cs) ('\\' :: c :: body) ('\\' :: c :: taken) := by
  refine h.behind ['\\', c] (fun k hk hcloses => ?_) (closesAt_escape quote c cs)
  match k, hk with
  | 0, _ => exact hquote ((closesAt_zero ..).mp hcloses).symm
  | 1, _ => cases hcloses.2

theorem Literal.plain (hc : c ≠ '\\') (hne : c ≠ quote) (h : Literal quote cs body taken) :
    Literal quote (c :: cs) (c :: body) (c :: taken) := by
  refine h.behind [c] (fun k hk hcloses => ?_) (closesAt_plain hc cs)
  obtain rfl : k = 0 := Nat.lt_one_iff.mp hk
  exact hne ((closesAt_zero ..).mp hcloses)

theorem decode_cons (hc : c ≠ '\\') (cs : List Char) : decode (c :: cs) = c :: decode cs := by
  rw [decode]
  · exact fun h => absurd h hc
  · exact fun _ _ h => absurd h hc

theorem literal_takeString (hquote : quote ≠ '\\') (cs : List Char) :
    ∃ body, Literal quote cs body (takeString quote cs).1 ∧
      (takeString quote cs).2 = decode body := by
  induction cs using escape_induction with
  | nil => exact ⟨[], .unclosed fun k hk => (nomatch hk.1), rfl⟩
  | lone =>
    refine ⟨['\\'], .unclosed fun k hk => ?_, rfl⟩
    match k with
    | 0 => exact hquote ((closesAt_zero ..).mp hk).symm
    | k + 1 => cases hk.1
  | escape c cs ih =>
    obtain ⟨body, hliteral, hvalue⟩ := ih
    refine ⟨'\\' :: c :: body, hliteral.escape hquote c, ?_⟩
    simp only [takeString, decode, hvalue]
  | plain c cs hc ih =>
    rw [takeString_cons hc]
    split
    next heq =>
      refine ⟨[], ?_, rfl⟩
      exact .closed ((closesAt_zero quote c cs).mpr heq) fun j hj => absurd hj (Nat.not_lt_zero j)
    next hne =>
      obtain ⟨body, hliteral, hvalue⟩ := ih
      exact ⟨c :: body, hliteral.plain hc hne, by rw [decode_cons hc, hvalue]⟩

theorem unescape_eq_replacement (c : Char) : unescape c = '\uFFFD' ↔ c = '\uFFFD' := by
  unfold unescape
  split_ifs with hn ht hr
  · simp [hn]
  · simp [ht]
  · simp [hr]
  · rfl

theorem count_replacement_decode (cs : List Char) :
    (decode cs).count '\uFFFD' = cs.count '\uFFFD' := by
  induction cs using escape_induction with
  | nil => rfl
  | lone => rfl
  | escape c cs ih => simp [decode, List.count_cons, unescape_eq_replacement, ih]
  | plain c cs hc ih => simp only [decode_cons hc, List.count_cons, ih]

end Closing

section Escaping

variable {quote : Char} (hquote : isQuote quote = true)

include hquote

theorem unescape_of_isQuote : unescape quote = quote := by
  obtain rfl | rfl := isQuote_cases hquote <;> rfl

theorem takeString_escape (cs rest : List Char) :
    takeString quote (escape quote cs ++ quote :: rest) = (escape quote cs ++ [quote], cs) := by
  have hne := (isQuote_ascii hquote).2
  induction cs with
  | nil => rw [escape, List.nil_append, takeString_cons hne, if_pos rfl, List.nil_append]
  | cons c cs ih =>
    rw [escape]
    by_cases hc : c = '\\' ∨ c = quote
    · have hc' : unescape c = c := by
        obtain rfl | rfl := hc
        · rfl
        · exact unescape_of_isQuote hquote
      simp only [if_pos hc, List.cons_append, takeString, ih, hc']
    · obtain ⟨hbackslash, hplain⟩ := not_or.mp hc
      rw [if_neg hc, List.cons_append, takeString_cons hbackslash, if_neg hplain, ih]
      rfl

end Escaping

end Lexeme

namespace Token

open Lexeme

theorem mem_of_tokenStart {p : Position} {cs : List Char} {ts : List Token}
    (h : scanFrom p cs = .ok ts) {c : Char} {rest : List Char}
    (hstart : TokenStart cs (c :: rest)) :
    ∃ before lx, cs = before ++ c :: rest ∧ next c rest = .ok lx ∧
      ofLexeme lx (p.advance before) ∈ ts := by
  induction ts generalizing p cs with
  | nil => obtain ⟨_, -, ⟨⟩⟩ | ⟨_, _, _, _, _, _, -, -, -, -, ⟨⟩⟩ := scanFrom_cases h
  | cons t ts ih =>
    obtain ⟨gap, hsplit, -⟩ | ⟨gap, d, w, r, lx, us, hsplit, hnext, htext, hus, hts⟩ :=
      scanFrom_cases h
    · exact absurd hstart (not_tokenStart hsplit)
    · cases hts
      obtain ⟨-, -, rfl⟩ := gap_of_splitGap hsplit
      rcases tokenStart_cases hsplit hnext htext hstart with hhere | hlater
      · cases hhere
        exact ⟨gap, lx, rfl, hnext, List.mem_cons_self⟩
      · obtain ⟨before, lx', rfl, hnext', hmem⟩ := ih hus hlater
        refine ⟨gap ++ lx.text ++ before, lx', by simp [htext], hnext', ?_⟩
        rw [Position.advance_append, Position.advance_append]
        exact List.mem_cons_of_mem _ hmem

theorem next_of_isQuote {q : Char} (hq : isQuote q = true) (cs : List Char) :
    next q cs = .ok ⟨.string (String.ofList (takeString q cs).2), q :: (takeString q cs).1⟩ := by
  rw [next, if_pos hq]

theorem starts_of_isQuote {q : Char} (hq : isQuote q = true) (cs : List Char) : Starts q cs := by
  obtain rfl | rfl := isQuote_cases hq <;> exact ⟨rfl, nofun⟩

theorem scan_escape {q : Char} (hq : isQuote q = true) (s : String) :
    let written := q :: (escape q s.toList ++ [q])
    scan (String.ofList written) =
      .ok [ofLexeme ⟨.string s, written⟩ .first, atEnd (Position.first.advance written)] := by
  intro written
  have hnext : next q ((escape q s.toList ++ [q]) ++ []) = .ok ⟨.string s, written⟩ := by
    rw [List.append_nil, next_of_isQuote hq, takeString_escape hq, String.ofList_toList]
  have hsplit : splitGap .blank written = ([], q :: ((escape q s.toList ++ [q]) ++ [])) := by
    rw [List.append_nil]
    exact splitGap_of_starts (starts_of_isQuote hq _)
  have hend : scanFrom (Position.first.advance written) [] =
      .ok [atEnd ((Position.first.advance written).advance [])] := scanFrom_of_gap rfl
  rw [scan_eq_scanFrom, String.toList_ofList]
  exact scanFrom_of_next hsplit hnext rfl hend

/-- Strings decode by characters. At a token start a string takes its text up to and including the
first quote behind an even run of backslashes, or all of it, and stands for what is decoded from
between. Read byte by byte it takes the same, its buffer is a whole text, and the conversion of the
buffer introduces no replacement character. A text between quotes, with its backslashes and quotes
escaped, is one token that stands for the text. -/
theorem strings_decode_by_characters (q : Char) (hq : isQuote q = true) :
    (∀ (text : String) (cs : List Char), TokenStart text.toList (q :: cs) →
      ∃ body taken, Literal q cs body taken ∧
        next q cs = .ok ⟨.string (String.ofList (decode body)), q :: taken⟩ ∧
        (∀ ts, scan text = .ok ts → ∃ before, text.toList = before ++ q :: cs ∧
          ofLexeme ⟨.string (String.ofList (decode body)), q :: taken⟩
            (Position.first.advance before) ∈ ts) ∧
        takeStringBytes q.toUInt8 (utf8 cs) = (utf8 taken, utf8 (decode body)) ∧
        lossy (takeStringBytes q.toUInt8 (utf8 cs)).2 = decode body ∧
        (decode body).count '\uFFFD' = body.count '\uFFFD') ∧
    ∀ s : String, scan (String.ofList (q :: (escape q s.toList ++ [q]))) =
      .ok [ofLexeme ⟨.string s, q :: (escape q s.toList ++ [q])⟩ .first,
        atEnd (Position.first.advance (q :: (escape q s.toList ++ [q])))] := by
  refine ⟨fun text cs hstart => ?_, scan_escape hq⟩
  obtain ⟨body, hliteral, hvalue⟩ := literal_takeString (isQuote_ascii hq).2 cs
  have hnext := next_of_isQuote hq cs
  have hbytes := takeStringBytes_utf8 hq cs
  rw [hvalue] at hnext hbytes
  refine ⟨body, _, hliteral, hnext, fun ts hts => ?_, hbytes, ?_, count_replacement_decode body⟩
  · obtain ⟨before, lx, hbefore, hlx, hmem⟩ := mem_of_tokenStart (scanFrom_of_scan hts) hstart
    obtain rfl := Except.ok.inj (hnext.symm.trans hlx)
    exact ⟨before, hbefore, hmem⟩
  · rw [hbytes, lossy_utf8]

/-- An escape takes a wide character, and the closing quote follows two backslashes. -/
theorem strings_decode_by_characters_wide_escape :
    (∃ body taken, Literal '"' "\\é\\\\\" \"x".toList body taken ∧
      lossy (takeStringBytes 0x22 (utf8 "\\é\\\\\" \"x".toList)).2 = decode body) ∧
    (scan "\"é\\\"\\\\\"").map (·.map Token.kind) = .ok [.string "é\"\\", .endOfInput] := by
  have hstart : TokenStart " \"\\é\\\\\" \"x".toList ('"' :: "\\é\\\\\" \"x".toList) :=
    .first (.blank (c := ' ') rfl .nil) (starts_of_isQuote rfl _) rfl
  obtain ⟨hstrings, hquoted⟩ := strings_decode_by_characters '"' rfl
  obtain ⟨body, taken, hliteral, -, -, -, hlossy, -⟩ := hstrings _ _ hstart
  have hscan := congrArg (Except.map (List.map Token.kind)) (hquoted "é\"\\")
  exact ⟨⟨body, taken, hliteral, hlossy⟩, hscan⟩

end Token

end ScriptEngine
