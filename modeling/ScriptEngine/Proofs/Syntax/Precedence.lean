import ScriptEngine.Proofs.Syntax.Words

/-!
# Precedence and associativity

The words of an expression are read as that expression, whatever operators stand in each other in
it. After the operators, what is left are calls, members and `new`, whose chains share their left
ends, the targets of assignments, and lists. The induction over the tree puts all of them together.
-/

namespace ScriptEngine

open Parse Token Grammar Word

variable {numeral : Float → Word}

namespace Expr

variable {e : Expr} {s : Stream} {i j n : Nat}

/-! ## Lists, properties and targets -/

def AllWritten (numeral : Float → Word) (es : List Expr) : Prop :=
  ∀ (s : Stream) (i j n m : Nat), s.Shows i (Expr.listWords numeral es) →
    j = i + (Expr.listWords numeral es).length → j < s.last → j < i + n → s.tokens.size < i + m →
    closedFrom 1 (s.kindAt j) → s.kindAt j ≠ .symbol .comma →
    ∃ es' : List Expr, Expr.sameList es' es ∧
      (es ≠ [] → closes (s.kindAt i) = false ∧
        separated (upTo n).assignment m s i = .ok (es', j)) ∧
      (s.kindAt j = .symbol .closeBracket →
        separatedUntil .closeBracket (upTo n).assignment m s i = .ok (es', j))

theorem allWritten_nil : AllWritten numeral [] := by
  intro s i j n m _ hj hlast _ hm _ _
  simp only [Expr.listWords, List.length_nil, Nat.add_zero] at hj
  subst hj
  obtain ⟨m, rfl⟩ : ∃ m', m = m' + 1 := ⟨m - 1, by simp only [Stream.last] at hlast; omega⟩
  exact ⟨[], rfl, fun h => absurd rfl h, fun hclose => run_separatedUntil_nil hclose⟩

theorem not_closes_of_assignment (h : (upTo n).assignment s i = .ok (e, j)) :
    closes (s.kindAt i) = false := by
  cases n with
  | zero => exact absurd h (run_fail_ne_ok _ _)
  | succ n => exact not_closes_of_readAssignment h

theorem allWritten_cons {es : List Expr} (he : e.Written numeral) (hes : AllWritten numeral es) :
    AllWritten numeral (e :: es) := by
  intro s i j n m hs hj hlast hn hm hk hcomma
  have hsize : s.last < s.tokens.size := by
    have := s.size_pos
    simp only [Stream.last]
    omega
  obtain ⟨m, rfl⟩ : ∃ m', m = m' + 1 := ⟨m - 1, by omega⟩
  cases es with
  | nil =>
    obtain ⟨e', he', hread⟩ := he.nested hs hj (by omega) hn hk
    have hfirst := not_closes_of_assignment hread
    have hclose : s.kindAt i ≠ .symbol .closeBracket := by
      intro h
      rw [h] at hfirst
      cases hfirst
    refine ⟨[e'], ?_, fun _ => ⟨hfirst, run_separated_last hread hcomma⟩, fun _ => ?_⟩
    · simp [Expr.sameList, he']
    · exact run_separatedUntil_last hclose hread hcomma
  | cons e₂ es =>
    simp only [Expr.listWords, List.length_append, List.length_cons] at hs hj
    obtain ⟨k, hkl, hse, hklast, hkcomma, hses⟩ := hs.split
    obtain ⟨e', he', hread⟩ := he.nested (n := n) hse hkl (by omega) (by omega)
      (by rw [hkcomma]; decide)
    obtain ⟨es', hes', hseparated, huntil⟩ := hes s (k + 1) j n m hses (by omega) hlast (by omega)
      (by omega) hk hcomma
    have hfirst := not_closes_of_assignment hread
    have hclose : s.kindAt i ≠ .symbol .closeBracket := by
      intro h
      rw [h] at hfirst
      cases hfirst
    refine ⟨e' :: es', ?_, fun _ => ⟨hfirst, ?_⟩, fun h => ?_⟩
    · simp [Expr.sameList, he', hes']
    · exact run_separated_cons hread hklast hkcomma (hseparated (by simp)).2
    · exact run_separatedUntil_cons hclose hread hklast hkcomma (huntil h)

theorem AllWritten.arguments {es : List Expr} (hes : AllWritten numeral es)
    (hs : s.Shows i (symbol .openParen :: Expr.listWords numeral es ++ [symbol .closeParen]))
    (hj : j = i + (Expr.listWords numeral es).length + 2) (hn : j ≤ i + n) :
    ∃ es' : List Expr, Expr.sameList es' es ∧ arguments (upTo n) s i = .ok (es', j) := by
  obtain ⟨k, hk, ⟨hi, hopen, hslist⟩, hklast, hkclose, -⟩ := hs.split
  simp only [List.length_cons] at hk
  have hkopen := Stream.kindAt_of_word hopen
  have hsize : s.last < s.tokens.size := by
    have := s.size_pos
    simp only [Stream.last]
    omega
  obtain ⟨es', hes', hseparated, -⟩ :=
    hes s (i + 1) k n (s.tokens.size + 1) hslist (by omega) hklast
    (by omega) (by omega) (by rw [hkclose]; decide) (by rw [hkclose]; exact nofun)
  cases es with
  | nil =>
    simp only [Expr.listWords, List.length_nil, Nat.zero_add] at hk hj
    subst hk hj
    cases es' with
    | nil => exact ⟨[], rfl, run_arguments_nil hi hkopen hklast hkclose⟩
    | cons => cases hes'
  | cons e es =>
    obtain ⟨hfirst, hread⟩ := hseparated (by simp)
    have hne : s.kindAt (i + 1) ≠ .symbol .closeParen := by
      intro h
      rw [h] at hfirst
      cases hfirst
    have hargs := run_arguments hi hkopen hne hread hklast hkclose
    rw [show k + 1 = j by omega] at hargs
    exact ⟨es', hes', hargs⟩

end Expr

def Property.Written (numeral : Float → Word) (p : Property) : Prop :=
  ∀ (s : Stream) (i j n : Nat), s.Shows i (p.words numeral) → j = i + (p.words numeral).length →
    j ≤ s.last → j ≤ i + n →
    i < j ∧ s.kindAt i ≠ .symbol .openParen ∧
      ∃ p' : Property, p'.same p ∧ memberSuffix (upTo n) s i = .ok (some p', j)

theorem written_named (name : Ident) : (Property.named name).Written numeral := by
  intro s i j n hs hj hlast hn
  simp only [Property.words, Stream.shows_cons, Stream.shows_nil, and_true, List.length_cons,
    List.length_nil] at hs hj
  obtain ⟨hi, hdot, hi', hname⟩ := hs
  have hkdot := Stream.kindAt_of_word hdot
  have hread : expectPropertyName s (i + 1) =
      .ok (⟨name.name, (s.get (i + 1)).span⟩, i + 1 + 1) := by
    unfold expectPropertyName
    rw [run_bind run_peek]
    have hkind := congrArg Prod.fst hname
    have htext := congrArg Prod.snd hname
    simp only [Token.word, propertyName] at hkind htext
    cases hkeyword : Keyword.ofText? name.name with
    | some k =>
      rw [hkeyword] at hkind htext
      have htext' : (s.get (i + 1)).text = name.name :=
        htext.trans (Keyword.text_of_ofText? hkeyword)
      simp only [hkind, Word.keyword, htext']
      rw [run_bind (run_advance hi')]
      rfl
    | none =>
      rw [hkeyword] at hkind
      simp only [hkind, Word.name]
      rw [run_bind (run_advance hi')]
      rfl
  have hsuffix := run_memberSuffix_named (g := upTo n) hi hkdot hread
  rw [show i + 1 + 1 = j by omega] at hsuffix
  refine ⟨by omega, by rw [hkdot]; decide, _, ?_, hsuffix⟩
  simp [Property.same, Ident.same]

theorem written_computed {key : Expr} (hkey : key.Written numeral) :
    (Property.computed key).Written numeral := by
  intro s i j n hs hj hlast hn
  simp only [Property.words, List.length_append, List.length_cons, List.length_nil] at hs hj
  obtain ⟨k, hk, ⟨hi, hopen, hskey⟩, hklast, hkclose, -⟩ := hs.split
  simp only [List.length_cons] at hk
  have hkopen := Stream.kindAt_of_word hopen
  obtain ⟨key', hkey', hread⟩ := hkey.nested (n := n) (j := k) hskey (by omega)
    (by omega) (by omega)
    (by rw [hkclose]; decide)
  have hsuffix := run_memberSuffix_computed hi hkopen hread hklast hkclose
  rw [show k + 1 = j by omega] at hsuffix
  exact ⟨by omega, by rw [hkopen]; exact nofun, .computed key', hkey', hsuffix⟩

/-- The rank of a member access. -/
def memberRank (base : Expr) : Nat :=
  if base.rank = Rank.call then Rank.call else Rank.member

section Member

variable {s : Stream} {i j n : Nat}

/-- A member access goes on the chain of its object: a chain of calls if that has a call in it, and
a chain of members otherwise. -/
theorem arrives_member {base : Expr} {p : Property} (hbase : base.Written numeral)
    (hp : p.Written numeral)
    (hs : s.Shows i (grouped (base.rank < Rank.call) (base.words numeral) ++ p.words numeral))
    (hj : j = i + (grouped (base.rank < Rank.call) (base.words numeral) ++ p.words numeral).length)
    (hlast : j ≤ s.last) (hn : j ≤ i + n) :
    ∃ (base' : Expr) (p' : Property), base'.same base ∧ p'.same p ∧
      Arrives (upTo n) (memberRank base) s i (.member (originAt s i j) base' p') j := by
  obtain ⟨hsb, hsp⟩ := Stream.shows_append.mp hs
  obtain ⟨k, hk⟩ : ∃ k, k = i + (grouped (base.rank < Rank.call) (base.words numeral)).length :=
    ⟨_, rfl⟩
  rw [← hk] at hsp
  simp only [List.length_append] at hj
  obtain ⟨hlt, hparen, p', hp', hsuffix⟩ := hp s k j n hsp (by omega) hlast (by omega)
  by_cases hrank : base.rank = Rank.call
  · obtain ⟨base', hbase', harrives⟩ :=
      hbase.arrives (r := Rank.call) (n := n) rfl hsb hk (by omega)
      (by omega) (.inl ⟨hrank, by decide⟩)
    refine ⟨base', p', hbase', hp', ?_⟩
    rw [memberRank, if_pos hrank]
    refine harrives.step rfl (by omega) ?_ hlt
    exact (run_callStep_of_ne hparen).trans (run_memberStep hsuffix)
  · have hgroup : decide (base.rank < Rank.call) = decide (base.rank < Rank.member) := by
      simp only [decide_eq_decide]
      simp only [Rank.call, Rank.member] at hrank ⊢
      omega
    rw [hgroup] at hsb hk
    obtain ⟨base', hbase', harrives⟩ := hbase.arrives (r := Rank.member) (n := n) rfl hsb hk
      (by omega) (by omega) (.inr rfl)
    refine ⟨base', p', hbase', hp', ?_⟩
    rw [memberRank, if_neg hrank]
    exact harrives.step rfl (by omega) (run_memberStep hsuffix) hlt

end Member

def Target.Written (numeral : Float → Word) (t : Target) : Prop :=
  ∀ (s : Stream) (i j n : Nat), s.Shows i (t.words numeral) → j = i + (t.words numeral).length →
    j ≤ s.last → j ≤ i + n → closedFrom Rank.call (s.kindAt j) →
    i < j ∧ ∃ (e' : Expr) (t' : Target), e'.target? = some t' ∧ t'.same t ∧
      call (upTo n) s i = .ok (e', j)

theorem written_target_name (name : Ident) : (Target.name name).Written numeral := by
  intro s i j n hs hj hlast hn hk
  simp only [Target.words, Stream.shows_cons, Stream.shows_nil, and_true, List.length_cons,
    List.length_nil, Nat.zero_add] at hs hj
  obtain ⟨hi, hname⟩ := hs
  have hread := run_primary_identifier (g := upTo n) hi (Stream.kindAt_of_word hname)
  rw [← hj] at hread
  have hcall := run_readerAt_of_le (r := Rank.call) (by decide) (by decide) (Nat.le_refl 19) hread
    hlast hk
  refine ⟨by omega, _, _, rfl, ?_, hcall⟩
  simp [Target.same, Ident.same]

theorem written_target_member {base : Expr} {p : Property} (hbase : base.Written numeral)
    (hp : p.Written numeral) : (Target.member base p).Written numeral := by
  intro s i j n hs hj hlast hn hk
  obtain ⟨base', p', hbase', hp', harrives⟩ := arrives_member hbase hp hs hj hlast hn
  have hne : i < j := by
    obtain ⟨-, hsp⟩ := Stream.shows_append.mp hs
    have hj' := hj
    simp only [Target.words, List.length_append] at hj'
    obtain ⟨hlt, -, -⟩ := hp s _ j n hsp (by omega) hlast (by omega)
    omega
  have hle : Rank.call ≤ memberRank base := by
    unfold memberRank
    split <;> decide
  have hle' : memberRank base ≤ 19 := by
    unfold memberRank
    split <;> decide
  have hread := harrives.stop hlast (closedFrom_mono hk hle)
  refine ⟨hne, _, _, rfl, ?_, run_readerAt_of_le (by decide) hle hle' hread hlast hk⟩
  simp [Target.same, hbase', hp']

namespace Expr

variable {e : Expr}

theorem written_member {o : Origin} {base : Expr} {p : Property} (hbase : base.Written numeral)
    (hp : p.Written numeral) : (Expr.member o base p).Written numeral := by
  intro s i j n hs hj hlast hn _
  obtain ⟨base', p', hbase', hp', harrives⟩ := arrives_member hbase hp hs hj hlast hn
  refine ⟨_, ?_, harrives⟩
  simp [Expr.same, hbase', hp']

theorem written_call {o : Origin} {callee : Expr} {args : List Expr}
    (hcallee : callee.Written numeral)
    (hargs : AllWritten numeral args) : (Expr.call o callee args).Written numeral := by
  intro s i j n hs hj hlast hn _
  rw [Expr.words, List.append_assoc] at hs hj
  obtain ⟨hsc, hsargs⟩ := Stream.shows_append.mp hs
  obtain ⟨k, hk⟩ : ∃ k, k = i + (grouped (callee.rank < Rank.call) (callee.words numeral)).length :=
    ⟨_, rfl⟩
  rw [← hk] at hsargs
  simp only [List.length_append, List.length_cons, List.length_nil] at hj
  have hkopen : s.kindAt k = .symbol .openParen := Stream.kindAt_of_word hsargs.2.1
  obtain ⟨callee', hcallee', harrives⟩ := hcallee.arrives (r := Rank.call) (n := n) rfl hsc hk
    (by omega) (by omega) (.inr (by rw [hkopen]; decide))
  obtain ⟨args', hargs', hread⟩ := hargs.arguments (n := n) (j := j) hsargs (by omega) (by omega)
  have hstep : stepAt (upTo n) Rank.call i callee' s k =
      .ok (some (.call (originAt s i j) callee' args'), j) := run_callStep_call hkopen hread
  refine ⟨_, ?_, harrives.step rfl hsargs.1 hstep (by omega)⟩
  simp [Expr.same, hcallee', hargs']

theorem written_construct {o : Origin} {callee : Expr} {args : List Expr}
    (hcallee : callee.Written numeral) (hargs : AllWritten numeral args) :
    (Expr.construct o callee args).Written numeral := by
  intro s i j n hs hj hlast hn _
  rw [Expr.words, List.append_assoc] at hs hj
  simp only [List.cons_append, List.length_cons, List.length_append, List.length_nil] at hs hj
  obtain ⟨hi, hnew, hs'⟩ := hs
  obtain ⟨hsc, hsargs⟩ := Stream.shows_append.mp hs'
  obtain ⟨k, hk⟩ :
      ∃ k, k = i + 1 + (grouped (callee.rank < Rank.member) (callee.words numeral)).length :=
        ⟨_, rfl⟩
  rw [← hk] at hsargs
  have hknew := Stream.kindAt_of_word hnew
  have hkopen : s.kindAt k = .symbol .openParen := Stream.kindAt_of_word hsargs.2.1
  obtain ⟨n, rfl⟩ : ∃ m, n = m + 1 := ⟨n - 1, by omega⟩
  obtain ⟨callee', hcallee', hmember⟩ := hcallee.takes (r := Rank.member) (n := n) (by decide)
    (by decide) (by decide) hsc hk (by omega) (by omega) (by rw [hkopen]; decide)
  obtain ⟨args', hargs', hread⟩ := hargs.arguments (n := n + 1) (j := j)
    hsargs (by omega) (by omega)
  have hhead := run_memberHead_new hi hknew hmember hkopen hread
  refine ⟨_, ?_, reaches_head hhead⟩
  simp [Expr.same, hcallee', hargs']

theorem written_before {o : Origin} {op : UpdateOp} {t : Target} (ht : t.Written numeral) :
    (Expr.update o op .before t).Written numeral := by
  intro s i j n hs hj hlast hn hk
  simp only [Expr.words, Stream.shows_cons, List.length_cons] at hs hj
  obtain ⟨hi, hop, hst⟩ := hs
  have hkop := Stream.kindAt_of_word hop
  obtain ⟨n, rfl⟩ : ∃ m, n = m + 1 := ⟨n - 1, by omega⟩
  have hk' : closedFrom Rank.unary (s.kindAt j) := hk
  obtain ⟨-, e', t', htarget, ht', hcall⟩ := ht s (i + 1) j n hst (by omega) hlast (by omega)
    (closedFrom_mono hk' (by decide))
  have hunary := run_readerAt_of_le (r := Rank.unary) (q := Rank.call) (by decide) (by decide)
    (by decide) hcall hlast hk'
  have hupdate : updateOp? (s.kindAt i) = some op := by
    rw [hkop]
    cases op <;> rfl
  refine ⟨_, ?_, run_readUnary_before hi hupdate hunary htarget⟩
  simp [Expr.same, ht']

theorem written_after {o : Origin} {op : UpdateOp} {t : Target} (ht : t.Written numeral) :
    (Expr.update o op .after t).Written numeral := by
  intro s i j n hs hj hlast hn _
  simp only [Expr.words, List.length_append, List.length_cons, List.length_nil] at hs hj
  obtain ⟨k, hk, hst, hklast, hkop, -⟩ := hs.split
  have hupdate : updateOp? (s.kindAt k) = some op := by
    rw [hkop]
    cases op <;> rfl
  have hclosed : closedFrom Rank.call (s.kindAt k) := by
    rw [hkop]
    cases op <;> decide
  obtain ⟨-, e', t', htarget, ht', hcall⟩ := ht s i k n hst hk (by omega) (by omega) hclosed
  have hread := run_updated_after hcall hklast hupdate htarget
  rw [show k + 1 = j by omega] at hread
  refine ⟨_, ?_, hread⟩
  simp [Expr.same, ht']

theorem written_assigning {t : Target} {value : Expr} {c : Symbol} {op : Option BinaryOp}
    (ht : t.Written numeral) (hvalue : value.Written numeral)
    (hwords : e.words numeral = t.words numeral ++ symbol c :: value.words numeral)
    (hrank : e.rank = Rank.assignment) (hop : assignOp? (.symbol c) = some op)
    (hclosed : closedFrom 2 (.symbol c))
    (hsame : ∀ o t' v', t'.same t → v'.same value → (assigning op o t' v').same e) :
    e.Written numeral := by
  intro s i j n hs hj hlast hn hk
  rw [hwords] at hs hj
  simp only [List.length_append, List.length_cons] at hj
  obtain ⟨k, hkt, hst, hklast, hkop, hsv⟩ := hs.split
  have hkclosed : closedFrom 2 (s.kindAt k) := by
    rw [hkop]
    exact hclosed
  obtain ⟨-, e', t', htarget, ht', hcall⟩ := ht s i k n hst hkt (by omega) (by omega)
    (closedFrom_mono hkclosed (by decide))
  have hleft := run_readerAt_of_le (r := 2) (q := Rank.call) (by decide) (by decide)
    (by decide) hcall
    (by omega) hkclosed
  rw [hrank] at hk ⊢
  obtain ⟨v', hv', hread⟩ := hvalue.nested (n := n) (j := j) hsv (by omega) hlast (by omega) hk
  have hop' : assignOp? (s.kindAt k) = some op := by
    rw [hkop]
    exact hop
  exact ⟨_, hsame _ t' v' ht' hv', run_readAssignment_op hleft hklast hop' htarget hread⟩

theorem written_array {o : Origin} {items : List Expr} (hitems : AllWritten numeral items) :
    (Expr.array o items).Written numeral := by
  intro s i j n hs hj hlast hn _
  simp only [Expr.words, List.length_append, List.length_cons, List.length_nil] at hs hj
  obtain ⟨k, hk, ⟨hi, hopen, hsitems⟩, hklast, hkclose, -⟩ := hs.split
  simp only [List.length_cons] at hk
  have hkopen := Stream.kindAt_of_word hopen
  obtain ⟨items', hitems', -, huntil⟩ := hitems s (i + 1) k n (s.tokens.size + 1) hsitems (by omega)
    hklast (by omega) (by omega) (by rw [hkclose]; decide) (by rw [hkclose]; decide)
  have hread := run_primary_array hi hkopen (huntil hkclose) hklast hkclose
  rw [show k + 1 = j by omega] at hread
  exact ⟨.array _ items', hitems', hread⟩

end Expr

def Field.AllWritten (numeral : Float → Word) (fs : List Field) : Prop :=
  ∀ (s : Stream) (i j n m : Nat), s.Shows i (Field.listWords numeral fs) →
    j = i + (Field.listWords numeral fs).length → j < s.last → j < i + n → s.tokens.size < i + m →
    s.kindAt j = .symbol .closeBrace →
    ∃ fs' : List Field, Field.sameList fs' fs ∧
      separatedUntil .closeBrace (field (upTo n)) m s i = .ok (fs', j)

theorem Field.allWritten_nil : Field.AllWritten numeral [] := by
  intro s i j n m _ hj hlast _ hm hclose
  simp only [Field.listWords, List.length_nil, Nat.add_zero] at hj
  subst hj
  obtain ⟨m, rfl⟩ : ∃ m', m = m' + 1 := ⟨m - 1, by simp only [Stream.last] at hlast; omega⟩
  exact ⟨[], rfl, run_separatedUntil_nil hclose⟩

section Field

variable {s : Stream} {i j n : Nat}

theorem run_field_of_words {key : String} {value : Expr} (hvalue : value.Written numeral)
    (hs : s.Shows i (.string key :: symbol .colon :: value.words numeral))
    (hj : j = i + 2 + (value.words numeral).length) (hlast : j ≤ s.last) (hn : j < i + n)
    (hk : closedFrom 1 (s.kindAt j)) :
    s.kindAt i ≠ .symbol .closeBrace ∧
      ∃ value' : Expr, value'.same value ∧ field (upTo n) s i = .ok (.mk key value', j) := by
  obtain ⟨hi, hkey, hi', hcolon, hsv⟩ := hs
  have hkkey := Stream.kindAt_of_word hkey
  have hkcolon := Stream.kindAt_of_word hcolon
  obtain ⟨value', hvalue', hread⟩ :=
    hvalue.nested (n := n) (j := j) hsv (by omega) hlast (by omega) hk
  have hfield : fieldKey? (s.get i) = some key := by
    have hkind : (s.get i).kind = .string key := hkkey
    simp only [fieldKey?, hkind]
  refine ⟨by rw [hkkey]; exact nofun, value', hvalue', ?_⟩
  exact run_field hi hfield hi' hkcolon hread

theorem Field.allWritten_cons {key : String} {value : Expr} {fs : List Field}
    (hvalue : value.Written numeral) (hfs : Field.AllWritten numeral fs) :
    Field.AllWritten numeral (.mk key value :: fs) := by
  intro s i j n m hs hj hlast hn hm hclose
  have hsize : s.last < s.tokens.size := by
    have := s.size_pos
    simp only [Stream.last]
    omega
  obtain ⟨m, rfl⟩ : ∃ m', m = m' + 1 := ⟨m - 1, by omega⟩
  cases fs with
  | nil =>
    simp only [Field.listWords, List.length_cons] at hs hj
    obtain ⟨hne, value', hvalue', hread⟩ :=
      run_field_of_words (n := n) (j := j) hvalue hs (by omega)
      (by omega) hn (by rw [hclose]; decide)
    refine ⟨[.mk key value'], ?_, run_separatedUntil_last hne hread (by rw [hclose]; exact nofun)⟩
    simp [Field.sameList, hvalue']
  | cons f fs =>
    simp only [Field.listWords, List.length_append, List.length_cons] at hs hj
    obtain ⟨k, hk, hsf, hklast, hkcomma, hsfs⟩ := hs.split
    simp only [List.length_cons] at hk
    obtain ⟨hne, value', hvalue', hread⟩ :=
      run_field_of_words (n := n) (j := k) hvalue hsf (by omega)
      (by omega) (by omega) (by rw [hkcomma]; decide)
    obtain ⟨fs', hfs', huntil⟩ := hfs s (k + 1) j n m hsfs (by omega) hlast (by omega) (by omega)
      hclose
    refine ⟨.mk key value' :: fs', ?_, run_separatedUntil_cons hne hread hklast hkcomma huntil⟩
    simp [Field.sameList, hvalue', hfs']

end Field

theorem written_object {o : Origin} {fields : List Field}
    (hfields : Field.AllWritten numeral fields) :
    (Expr.object o fields).Written numeral := by
  intro s i j n hs hj hlast hn _
  simp only [Expr.words, List.length_append, List.length_cons, List.length_nil] at hs hj
  obtain ⟨k, hk, ⟨hi, hopen, hsfields⟩, hklast, hkclose, -⟩ := hs.split
  simp only [List.length_cons] at hk
  have hkopen := Stream.kindAt_of_word hopen
  obtain ⟨fields', hfields', huntil⟩ :=
    hfields s (i + 1) k n (s.tokens.size + 1) hsfields (by omega)
    hklast (by omega) (by omega) hkclose
  have hread := run_primary_object hi hkopen huntil hklast hkclose
  rw [show k + 1 = j by omega] at hread
  exact ⟨.object _ fields', hfields', hread⟩

namespace Expr

theorem written_number {o : Origin} {x : Float} (hx : writesNumber numeral x) :
    (Expr.number o x).Written numeral := by
  refine written_of_leaf rfl rfl fun g s i hi hw => ?_
  have hkind := Stream.kindAt_of_word hw
  unfold writesNumber at hx
  have hvalue : (s.get i).literalValue? = (numeral x).1.literalValue? (numeral x).2 := by
    rw [← hw]
    rfl
  cases hy : (numeral x).1.literalValue? (numeral x).2 with
  | none =>
    rw [hy] at hx
    cases hx
  | some y =>
    rw [hy] at hx
    have hform : ∃ form, (numeral x).1 = .number form := by
      cases hk : (numeral x).1 with
      | number form => exact ⟨form, rfl⟩
      | string | identifier | keyword | symbol | endOfInput =>
        rw [hk] at hy
        cases hy
    obtain ⟨form, hform⟩ := hform
    refine ⟨_, ?_, run_primary_number hi (hkind.trans hform) (hvalue.trans hy)⟩
    exact hx

theorem written_string {o : Origin} {v : String} : (Expr.string o v).Written numeral := by
  refine written_of_leaf rfl rfl fun g s i hi hw => ?_
  refine ⟨_, ?_, run_primary_string hi (Stream.kindAt_of_word hw)⟩
  simp [Expr.same]

theorem written_identifier {o : Origin} {n : String} : (Expr.identifier o n).Written numeral := by
  refine written_of_leaf rfl rfl fun g s i hi hw => ?_
  refine ⟨_, ?_, run_primary_identifier hi (Stream.kindAt_of_word hw)⟩
  simp [Expr.same]

theorem written_keyword {k : Keyword} {leaf : Origin → Expr} (hleaf : keywordLeaf? k = some leaf)
    (o : Origin) : (leaf o).Written numeral := by
  have hwords : (leaf o).words numeral = [.keyword k] := by
    cases k <;> cases hleaf <;> rfl
  have hrank : (leaf o).rank = Rank.primary := by
    cases k <;> cases hleaf <;> rfl
  refine written_of_leaf hwords hrank fun g s i hi hw => ?_
  refine ⟨_, ?_, run_primary_keyword hi (Stream.kindAt_of_word hw) hleaf⟩
  cases k <;> cases hleaf <;> rfl

end Expr

/-! ## The induction over the tree -/

mutual

theorem Expr.written (e : Expr) (he : e.writable numeral) : e.Written numeral := by
  match e with
  | .number .. => exact Expr.written_number he
  | .string .. => exact Expr.written_string
  | .bool o true => exact Expr.written_keyword (k := .true_) rfl o
  | .bool o false => exact Expr.written_keyword (k := .false_) rfl o
  | .null o => exact Expr.written_keyword (k := .null) rfl o
  | .this o => exact Expr.written_keyword (k := .this) rfl o
  | .identifier .. => exact Expr.written_identifier
  | .function .. => cases he
  | .array _ items => exact Expr.written_array (Expr.allWritten items he)
  | .object _ fields => exact written_object (Field.allWritten fields he)
  | .member _ base property =>
    simp only [Expr.writable, Bool.and_eq_true] at he
    exact Expr.written_member (Expr.written base he.1) (Property.written property he.2)
  | .call _ callee args =>
    simp only [Expr.writable, Bool.and_eq_true] at he
    exact Expr.written_call (Expr.written callee he.1) (Expr.allWritten args he.2)
  | .construct _ callee args =>
    simp only [Expr.writable, Bool.and_eq_true] at he
    exact Expr.written_construct (Expr.written callee he.1) (Expr.allWritten args he.2)
  | .update _ _ .before target => exact Expr.written_before (Target.written target he)
  | .update _ _ .after target => exact Expr.written_after (Target.written target he)
  | .unary _ _ operand => exact Expr.written_unary (Expr.written operand he)
  | .binary _ op left right =>
    simp only [Expr.writable, Bool.and_eq_true] at he
    have hleft := Expr.written left he.1
    have hright := Expr.written right he.2
    by_cases hop : op = .exp
    · subst hop
      exact Expr.written_power hleft hright
    · exact Expr.written_binary hleft hright hop
  | .logical _ _ left right =>
    simp only [Expr.writable, Bool.and_eq_true] at he
    exact Expr.written_logical (Expr.written left he.1) (Expr.written right he.2)
  | .coalesce _ left right =>
    simp only [Expr.writable, Bool.and_eq_true] at he
    exact Expr.written_coalesce (Expr.written left he.1) (Expr.written right he.2)
  | .conditional _ test yes no =>
    simp only [Expr.writable, Bool.and_eq_true] at he
    exact Expr.written_conditional (Expr.written test he.1.1) (Expr.written yes he.1.2)
      (Expr.written no he.2)
  | .assign _ target value =>
    simp only [Expr.writable, Bool.and_eq_true] at he
    refine Expr.written_assigning (Target.written target he.1) (Expr.written value he.2) rfl rfl
      (rfl : assignOp? (.symbol .assign) = some none) (by decide) fun o t' v' ht' hv' => ?_
    simp [assigning, Expr.same, ht', hv']
  | .compound _ op target value =>
    simp only [Expr.writable, Bool.and_eq_true, Option.isSome_iff_exists] at he
    obtain ⟨⟨⟨c, hc⟩, htarget⟩, hvalue⟩ := he
    have hop : assignOp? (.symbol c) = some (some op) := by
      cases op <;> cases hc <;> rfl
    have hclosed : closedFrom 2 (.symbol c) := by
      cases op <;> cases hc <;> decide
    refine Expr.written_assigning (Target.written target htarget)
      (Expr.written value hvalue) ?_ rfl hop
      hclosed fun o t' v' ht' hv' => ?_
    · rw [Expr.words, hc]
      rfl
    · simp [assigning, Expr.same, ht', hv']
termination_by structural e

theorem Expr.allWritten (es : List Expr) (hes : Expr.allWritable numeral es) :
    Expr.AllWritten numeral es := by
  match es with
  | [] => exact Expr.allWritten_nil
  | e :: es =>
    simp only [Expr.allWritable, Bool.and_eq_true] at hes
    exact Expr.allWritten_cons (Expr.written e hes.1) (Expr.allWritten es hes.2)
termination_by structural es

theorem Field.allWritten (fs : List Field) (hfs : Field.allWritable numeral fs) :
    Field.AllWritten numeral fs := by
  match fs with
  | [] => exact Field.allWritten_nil
  | .mk key value :: fs =>
    simp only [Field.allWritable, Bool.and_eq_true] at hfs
    exact Field.allWritten_cons (Expr.written value hfs.1) (Field.allWritten fs hfs.2)
termination_by structural fs

theorem Property.written (p : Property) (hp : p.writable numeral) : p.Written numeral := by
  match p with
  | .named name => exact written_named name
  | .computed key => exact written_computed (Expr.written key hp)
termination_by structural p

theorem Target.written (t : Target) (ht : t.writable numeral) : t.Written numeral := by
  match t with
  | .name name => exact written_target_name name
  | .member base property =>
    simp only [Target.writable, Bool.and_eq_true] at ht
    exact written_target_member (Expr.written base ht.1) (Property.written property ht.2)
termination_by structural t

end

/-- The words of an expression, followed by the end of input or a closing parenthesis, are read as
that expression and no further, at every depth that the number of words does not exceed. -/
theorem words_read_back (numeral : Float → Word) (e : Expr) (he : e.writable numeral) (s : Stream)
    (i n : Nat) (hs : s.Shows i (e.words numeral)) (hi : i ≤ s.last)
    (hn : (e.words numeral).length < n)
    (hfollow : s.kindAt (i + (e.words numeral).length) = .endOfInput ∨
      s.kindAt (i + (e.words numeral).length) = .symbol .closeParen) :
    ∃ e' : Expr, e'.same e ∧
      (Grammar.upTo n).assignment s i = .ok (e', i + (e.words numeral).length) := by
  have hclosed : closedFrom 1 (s.kindAt (i + (e.words numeral).length)) := by
    rcases hfollow with hk | hk <;> rw [hk] <;> decide
  exact (e.written he).nested hs rfl (hs.length_le hi) (by omega) hclosed

/-- The words of a product of a sum and a member, `(a + b) * c.k`. -/
theorem words_read_back_product :
    let e : Expr := .binary default .mul
      (.binary default .add (.identifier default "a") (.identifier default "b"))
      (.member default (.identifier default "c") (.named ⟨"k", default⟩))
    let ws := e.words fun _ => (.number .decimal, "0")
    let s := Stream.ofTokens (ws.map fun w => ⟨w.1, w.2, default⟩).toArray default
    ∃ e' : Expr, e'.same e ∧ (Grammar.upTo 10).assignment s 0 = .ok (e', 9) := by
  intro e ws s
  have hs : s.Shows 0 ws := by
    refine ⟨?_, ?_, ?_, ?_, ?_, ?_, ?_, ?_, ?_, ?_, ?_, ?_, ?_, ?_, ?_, ?_, ?_, ?_,
      trivial⟩ <;> decide
  exact words_read_back _ e rfl s 0 10 hs (by decide) (by decide) (.inl (by decide))

end ScriptEngine
