import ScriptEngine.Syntax.Statement

/-!
# Runs of parsing steps

What each step does at an index of a stream, as equations, and from them how the readers of
expressions go on once their parts are known.
-/

namespace ScriptEngine

open SyntaxError Token

namespace Parse

variable {α β : Type} {s : Stream} {i j : Nat}

theorem bind_apply (p : Parse α) (f : α → Parse β) :
    (p >>= f) s i = (p s i).bind fun r => f r.1 s r.2 := rfl

theorem run_bind {p : Parse α} {f : α → Parse β} {a : α} (h : p s i = .ok (a, j)) :
    (p >>= f) s i = f a s j := by
  rw [bind_apply, h]
  rfl

theorem of_run_bind {p : Parse α} {f : α → Parse β} {b : β} (h : (p >>= f) s i = .ok (b, j)) :
    ∃ a k, p s i = .ok (a, k) ∧ f a s k = .ok (b, j) := by
  rw [bind_apply] at h
  cases hp : p s i with
  | ok r =>
    rw [hp] at h
    exact ⟨r.1, r.2, rfl, h⟩
  | error e =>
    rw [hp] at h
    cases h

@[simp] theorem run_pure (a : α) : (pure a : Parse α) s i = .ok (a, i) := rfl

@[simp] theorem run_get : (get : Parse Nat) s i = .ok (i, i) := rfl

@[simp] theorem run_peek : peek s i = .ok (s.get i, i) := rfl

@[simp] theorem run_kind : kind s i = .ok (s.kindAt i, i) := rfl

@[simp] theorem run_check (k : Kind) : check k s i = .ok (s.kindAt i == k, i) := rfl

@[simp] theorem run_rounds : rounds s i = .ok (s.tokens.size + 1, i) := rfl

@[simp] theorem run_originFrom (start : Nat) :
    originFrom start s i = .ok (⟨spanFrom s start i, Slice.clamp s.tokens start i⟩, i) := rfl

theorem run_fail_ne_ok (cause : Cause) (r : α × Nat) : (fail cause : Parse α) s i ≠ .ok r :=
  fun h => nomatch h

theorem run_unexpected_ne_ok (r : α × Nat) : (unexpected : Parse α) s i ≠ .ok r :=
  fun h => nomatch h

theorem run_advance (h : i < s.last) : advance s i = .ok (s.get i, i + 1) := by
  unfold advance
  rw [run_bind (rfl : (read : Parse Stream) s i = .ok (s, i)), run_bind run_get, if_pos h]
  rfl

theorem run_advance_at_last (h : ¬i < s.last) : advance s i = .ok (s.get i, i) := by
  unfold advance
  rw [run_bind (rfl : (read : Parse Stream) s i = .ok (s, i)), run_bind run_get, if_neg h]
  rfl

theorem run_eat {k : Kind} (h : i < s.last) (hk : s.kindAt i = k) :
    eat k s i = .ok (true, i + 1) := by
  unfold eat
  rw [run_bind (run_check k)]
  simp only [hk, beq_self_eq_true, if_true]
  rw [run_bind (run_advance h)]
  rfl

theorem run_eat_of_ne {k : Kind} (hk : s.kindAt i ≠ k) : eat k s i = .ok (false, i) := by
  unfold eat
  rw [run_bind (run_check k)]
  simp [hk]

theorem run_expect {c : Symbol} (what : Expectation) (h : i < s.last)
    (hk : s.kindAt i = .symbol c) : expect c what s i = .ok ((), i + 1) := by
  unfold expect checkSymbol
  rw [run_bind (run_check _)]
  simp only [hk, beq_self_eq_true, if_true]
  rw [run_bind (run_advance h)]
  rfl

theorem run_unlessAt {c : Symbol} {a : α} {p : Parse α} (hk : s.kindAt i = .symbol c) :
    unlessAt c a p s i = .ok (a, i) := by
  unfold unlessAt checkSymbol
  rw [run_bind (run_check _)]
  simp [hk]

theorem run_unlessAt_of_ne {c : Symbol} {a : α} {p : Parse α} (hk : s.kindAt i ≠ .symbol c) :
    unlessAt c a p s i = p s i := by
  unfold unlessAt checkSymbol
  rw [run_bind (run_check _)]
  simp [hk]

section Lists

variable {item : Parse α} {m k : Nat} {x : α} {xs : List α}

theorem run_separated_last (hx : item s i = .ok (x, j)) (hk : s.kindAt j ≠ .symbol .comma) :
    separated item (m + 1) s i = .ok ([x], j) := by
  unfold separated eatSymbol
  rw [run_bind hx, run_bind (run_eat_of_ne hk)]
  rfl

theorem run_separated_cons (hx : item s i = .ok (x, k)) (hi : k < s.last)
    (hk : s.kindAt k = .symbol .comma) (hxs : separated item m s (k + 1) = .ok (xs, j)) :
    separated item (m + 1) s i = .ok (x :: xs, j) := by
  rw [separated]
  unfold eatSymbol
  rw [run_bind hx, run_bind (run_eat hi hk)]
  simp only [if_true]
  rw [run_bind hxs]
  rfl

theorem run_manyUntil_nil {stops : Kind → Bool} (hk : stops (s.kindAt i) = true) :
    manyUntil stops item (m + 1) s i = .ok ([], i) := by
  unfold manyUntil
  rw [run_bind run_kind, if_pos hk]
  rfl

theorem run_manyUntil_cons {stops : Kind → Bool} (hk : stops (s.kindAt i) = false)
    (hx : item s i = .ok (x, k)) (hxs : manyUntil stops item m s k = .ok (xs, j)) :
    manyUntil stops item (m + 1) s i = .ok (x :: xs, j) := by
  rw [manyUntil, run_bind run_kind, if_neg (by simp [hk]), run_bind hx, run_bind hxs]
  rfl

variable {close : Symbol}

theorem run_separatedUntil_nil (hk : s.kindAt i = .symbol close) :
    separatedUntil close item (m + 1) s i = .ok ([], i) := by
  unfold separatedUntil checkSymbol
  rw [run_bind (run_check _)]
  simp [hk]

theorem run_separatedUntil_last (hclose : s.kindAt i ≠ .symbol close)
    (hx : item s i = .ok (x, j)) (hk : s.kindAt j ≠ .symbol .comma) :
    separatedUntil close item (m + 1) s i = .ok ([x], j) := by
  rw [separatedUntil]
  unfold checkSymbol eatSymbol
  rw [run_bind (run_check _), if_neg (by simp [hclose]), run_bind hx, run_bind (run_eat_of_ne hk)]
  rfl

theorem run_separatedUntil_cons (hclose : s.kindAt i ≠ .symbol close)
    (hx : item s i = .ok (x, k)) (hi : k < s.last) (hk : s.kindAt k = .symbol .comma)
    (hxs : separatedUntil close item m s (k + 1) = .ok (xs, j)) :
    separatedUntil close item (m + 1) s i = .ok (x :: xs, j) := by
  rw [separatedUntil]
  unfold checkSymbol eatSymbol
  rw [run_bind (run_check _), if_neg (by simp [hclose]), run_bind hx, run_bind (run_eat hi hk)]
  simp only [if_true]
  rw [run_bind hxs]
  rfl

end Lists

/-- A reader with a chain has come to an index and goes on from there, with rounds enough to the end
of the stream. -/
def Reaches (p : Parse α) (step : Nat → α → Parse (Option α)) (s : Stream) (i : Nat) (a : α)
    (j : Nat) : Prop :=
  ∃ m, s.tokens.size < j + m ∧ p s i = chain (step i) m a s j

theorem reaches_head {head : Parse α} {step : Nat → α → Parse (Option α)} {a : α}
    (h : head s i = .ok (a, j)) :
    Reaches (do let start ← get; let a ← head; chain (step start) (← rounds) a) step s i a j := by
  refine ⟨s.tokens.size + 1, by omega, ?_⟩
  rw [run_bind run_get, run_bind h, run_bind run_rounds]

theorem Reaches.step {p : Parse α} {step : Nat → α → Parse (Option α)} {a b : α} {k : Nat}
    (h : Reaches p step s i a k) (hk : k < s.last) (hstep : step i a s k = .ok (some b, j))
    (hj : k < j) : Reaches p step s i b j := by
  obtain ⟨m, hm, hrun⟩ := h
  simp only [Stream.last] at hk
  obtain ⟨m, rfl⟩ : ∃ m', m = m' + 1 := ⟨m - 1, by omega⟩
  refine ⟨m, by omega, ?_⟩
  rw [hrun, chain, run_bind hstep]

theorem Reaches.stop {p : Parse α} {step : Nat → α → Parse (Option α)} {a : α}
    (h : Reaches p step s i a j) (hj : j ≤ s.last) (hstep : step i a s j = .ok (none, j)) :
    p s i = .ok (a, j) := by
  obtain ⟨m, hm, hrun⟩ := h
  simp only [Stream.last] at hj
  have := s.size_pos
  obtain ⟨m, rfl⟩ : ∃ m', m = m' + 1 := ⟨m - 1, by omega⟩
  rw [hrun, chain, run_bind hstep]
  rfl

def originAt (s : Stream) (start stop : Nat) : Origin :=
  ⟨spanFrom s start stop, Slice.clamp s.tokens start stop⟩

end Parse

namespace Grammar

open Parse

variable {g : Grammar} {s : Stream} {i j k : Nat}

theorem run_memberSuffix_named {name : Ident} (h : i < s.last) (hk : s.kindAt i = .symbol .dot)
    (hname : expectPropertyName s (i + 1) = .ok (name, j)) :
    memberSuffix g s i = .ok (some (.named name), j) := by
  unfold memberSuffix eatSymbol
  rw [run_bind (run_eat h hk)]
  simp only [if_true]
  exact run_bind hname

theorem run_memberSuffix_computed {key : Expr} (h : i < s.last)
    (hk : s.kindAt i = .symbol .openBracket) (hkey : g.assignment s (i + 1) = .ok (key, j))
    (hj : j < s.last) (hclose : s.kindAt j = .symbol .closeBracket) :
    memberSuffix g s i = .ok (some (.computed key), j + 1) := by
  unfold memberSuffix eatSymbol
  rw [run_bind (run_eat_of_ne (by rw [hk]; decide))]
  simp only [Bool.false_eq_true, if_false]
  rw [run_bind (run_eat h hk)]
  simp only [if_true]
  rw [run_bind hkey, run_bind (run_expect _ hj hclose)]
  rfl

theorem run_memberSuffix_none (hdot : s.kindAt i ≠ .symbol .dot)
    (hopen : s.kindAt i ≠ .symbol .openBracket) : memberSuffix g s i = .ok (none, i) := by
  unfold memberSuffix eatSymbol
  rw [run_bind (run_eat_of_ne hdot)]
  simp only [Bool.false_eq_true, if_false]
  rw [run_bind (run_eat_of_ne hopen)]
  rfl

theorem run_memberStep {start : Nat} {e : Expr} {p : Property}
    (h : memberSuffix g s i = .ok (some p, j)) :
    memberStep g start e s i = .ok (some (.member (originAt s start j) e p), j) := by
  unfold memberStep
  rw [run_bind h]
  rfl

theorem run_memberStep_none {start : Nat} {e : Expr} (h : memberSuffix g s i = .ok (none, i)) :
    memberStep g start e s i = .ok (none, i) := by
  unfold memberStep
  rw [run_bind h]
  rfl

theorem run_callStep_call {start : Nat} {e : Expr} {args : List Expr}
    (hk : s.kindAt i = .symbol .openParen) (hargs : arguments g s i = .ok (args, j)) :
    callStep g start e s i = .ok (some (.call (originAt s start j) e args), j) := by
  unfold callStep checkSymbol
  rw [run_bind (run_check _)]
  simp only [hk, beq_self_eq_true, if_true]
  rw [run_bind hargs]
  rfl

theorem run_callStep_of_ne {start : Nat} {e : Expr} (hk : s.kindAt i ≠ .symbol .openParen) :
    callStep g start e s i = memberStep g start e s i := by
  unfold callStep checkSymbol
  rw [run_bind (run_check _)]
  simp [hk]

theorem run_levelStep {level : Level} {next : Parse Expr} {start : Nat} {left right : Expr}
    {join : Origin → Expr → Expr → Expr} (hi : i < s.last) (hk : level (s.kindAt i) = some join)
    (hright : next s (i + 1) = .ok (right, j)) :
    levelStep level next start left s i = .ok (some (join (originAt s start j) left right), j) := by
  unfold levelStep
  rw [run_bind run_kind, hk]
  simp only
  rw [run_bind (run_advance hi), run_bind hright]
  rfl

theorem run_levelStep_none {level : Level} {next : Parse Expr} {start : Nat} {left : Expr}
    (hk : level (s.kindAt i) = none) :
    levelStep level next start left s i = .ok (none, i) := by
  unfold levelStep
  rw [run_bind run_kind, hk]
  rfl

theorem run_memberHead_of_ne (hk : s.kindAt i ≠ .keyword .new) :
    memberHead g s i = primary g s i := by
  unfold memberHead eatKeyword
  rw [run_bind run_get, run_bind (run_eat_of_ne hk)]
  rfl

theorem run_argumentsIfAny {args : List Expr} (hopen : s.kindAt i = .symbol .openParen)
    (hargs : arguments g s i = .ok (args, j)) : argumentsIfAny g s i = .ok (args, j) := by
  unfold argumentsIfAny checkSymbol
  rw [run_bind (run_check _)]
  simp only [hopen, beq_self_eq_true, if_true]
  exact hargs

theorem run_memberHead_new {callee : Expr} {args : List Expr} (hi : i < s.last)
    (hk : s.kindAt i = .keyword .new) (hcallee : g.member s (i + 1) = .ok (callee, k))
    (hopen : s.kindAt k = .symbol .openParen) (hargs : arguments g s k = .ok (args, j)) :
    memberHead g s i = .ok (.construct (originAt s i j) callee args, j) := by
  unfold memberHead eatKeyword
  rw [run_bind run_get, run_bind (run_eat hi hk)]
  simp only [if_true]
  rw [run_bind hcallee, run_bind (run_argumentsIfAny hopen hargs)]
  rfl

theorem run_updated {e : Expr} (h : call g s i = .ok (e, j)) (hk : updateOp? (s.kindAt j) = none) :
    updated g s i = .ok (e, j) := by
  unfold updated
  rw [run_bind run_get, run_bind h, run_bind run_kind, hk]
  rfl

theorem run_updated_after {e : Expr} {op : UpdateOp} {t : Target} (h : call g s i = .ok (e, j))
    (hj : j < s.last) (hk : updateOp? (s.kindAt j) = some op) (ht : e.target? = some t) :
    updated g s i = .ok (.update (originAt s i (j + 1)) op .after t, j + 1) := by
  unfold updated
  rw [run_bind run_get, run_bind h, run_bind run_kind, hk]
  simp only [ht]
  rw [run_bind (run_advance hj)]
  rfl

theorem run_readUnary (hupdate : updateOp? (s.kindAt i) = none)
    (hunary : unaryOp? (s.kindAt i) = none) : readUnary g s i = updated g s i := by
  unfold readUnary
  rw [run_bind run_get, run_bind run_kind, hupdate]
  simp only [hunary]

theorem run_readUnary_op {op : UnaryOp} {e : Expr} (hi : i < s.last)
    (hupdate : updateOp? (s.kindAt i) = none) (hunary : unaryOp? (s.kindAt i) = some op)
    (he : g.unary s (i + 1) = .ok (e, j)) :
    readUnary g s i = .ok (.unary (originAt s i j) op e, j) := by
  unfold readUnary
  rw [run_bind run_get, run_bind run_kind, hupdate]
  simp only [hunary]
  rw [run_bind (run_advance hi), run_bind he]
  rfl

theorem run_readUnary_before {op : UpdateOp} {e : Expr} {t : Target} (hi : i < s.last)
    (hupdate : updateOp? (s.kindAt i) = some op) (he : g.unary s (i + 1) = .ok (e, j))
    (ht : e.target? = some t) :
    readUnary g s i = .ok (.update (originAt s i j) op .before t, j) := by
  unfold readUnary
  rw [run_bind run_get, run_bind run_kind, hupdate]
  simp only
  rw [run_bind (run_advance hi), run_bind he, ht]
  rfl

theorem run_readExponent {e : Expr} (h : readUnary g s i = .ok (e, j))
    (hk : s.kindAt j ≠ .symbol .power) : readExponent g s i = .ok (e, j) := by
  unfold readExponent eatSymbol
  rw [run_bind run_get, run_bind h, run_bind (run_eat_of_ne hk)]
  rfl

theorem run_readExponent_power {base power : Expr} (h : readUnary g s i = .ok (base, k))
    (hi : k < s.last) (hk : s.kindAt k = .symbol .power)
    (hpower : g.exponent s (k + 1) = .ok (power, j)) :
    readExponent g s i = .ok (.binary (originAt s i j) .exp base power, j) := by
  unfold readExponent eatSymbol
  rw [run_bind run_get, run_bind h, run_bind (run_eat hi hk)]
  simp only [if_true]
  rw [run_bind hpower]
  rfl

theorem run_conditional {e : Expr} (h : ladder (readExponent g) levels s i = .ok (e, j))
    (hk : s.kindAt j ≠ .symbol .question) : conditional g s i = .ok (e, j) := by
  unfold conditional eatSymbol
  rw [run_bind run_get, run_bind h, run_bind (run_eat_of_ne hk)]
  rfl

theorem run_conditional_branches {test yes no : Expr} {m : Nat}
    (h : ladder (readExponent g) levels s i = .ok (test, k)) (hi : k < s.last)
    (hk : s.kindAt k = .symbol .question) (hyes : g.assignment s (k + 1) = .ok (yes, m))
    (hm : m < s.last) (hcolon : s.kindAt m = .symbol .colon)
    (hno : g.assignment s (m + 1) = .ok (no, j)) :
    conditional g s i = .ok (.conditional (originAt s i j) test yes no, j) := by
  unfold conditional eatSymbol
  rw [run_bind run_get, run_bind h, run_bind (run_eat hi hk)]
  simp only [if_true]
  rw [run_bind hyes, run_bind (run_expect _ hm hcolon), run_bind hno]
  rfl

theorem run_readAssignment {e : Expr} (h : conditional g s i = .ok (e, j))
    (hk : assignOp? (s.kindAt j) = none) : readAssignment g s i = .ok (e, j) := by
  unfold readAssignment
  rw [run_bind run_get, run_bind h, run_bind run_kind, hk]
  rfl

def assigning (op : Option BinaryOp) (o : Origin) (t : Target) (value : Expr) : Expr :=
  match op with
  | none => .assign o t value
  | some op => .compound o op t value

theorem run_readAssignment_op {e value : Expr} {t : Target} {op : Option BinaryOp}
    (h : conditional g s i = .ok (e, k)) (hi : k < s.last) (hk : assignOp? (s.kindAt k) = some op)
    (ht : e.target? = some t) (hvalue : g.assignment s (k + 1) = .ok (value, j)) :
    readAssignment g s i = .ok (assigning op (originAt s i j) t value, j) := by
  unfold readAssignment
  rw [run_bind run_get, run_bind h, run_bind run_kind, hk]
  simp only [ht]
  rw [run_bind (run_advance hi), run_bind hvalue]
  cases op <;> rfl

theorem run_primary_identifier {n : String} (hi : i < s.last)
    (hk : s.kindAt i = .identifier n) :
    primary g s i = .ok (.identifier (originAt s i (i + 1)) n, i + 1) := by
  unfold primary
  have ht : (s.get i).kind = .identifier n := hk
  rw [run_bind run_get, run_bind run_peek]
  simp only [ht]
  rw [run_bind (run_advance hi)]
  rfl

theorem run_primary_number {form : NumberForm} {x : Float} (hi : i < s.last)
    (hk : s.kindAt i = .number form) (hx : (s.get i).literalValue? = some x) :
    primary g s i = .ok (.number (originAt s i (i + 1)) x, i + 1) := by
  unfold primary
  have ht : (s.get i).kind = .number form := hk
  rw [run_bind run_get, run_bind run_peek]
  simp only [ht, hx]
  rw [run_bind (run_advance hi)]
  rfl

theorem run_primary_string {v : String} (hi : i < s.last) (hk : s.kindAt i = .string v) :
    primary g s i = .ok (.string (originAt s i (i + 1)) v, i + 1) := by
  unfold primary
  have ht : (s.get i).kind = .string v := hk
  rw [run_bind run_get, run_bind run_peek]
  simp only [ht]
  rw [run_bind (run_advance hi)]
  rfl

def keywordLeaf? : Keyword → Option (Origin → Expr)
  | .true_ => some (.bool · true)
  | .false_ => some (.bool · false)
  | .null => some .null
  | .this => some .this
  | _ => none

theorem run_primary_keyword {k : Keyword} {leaf : Origin → Expr} (hi : i < s.last)
    (hk : s.kindAt i = .keyword k) (hleaf : keywordLeaf? k = some leaf) :
    primary g s i = .ok (leaf (originAt s i (i + 1)), i + 1) := by
  unfold primary
  have ht : (s.get i).kind = .keyword k := hk
  rw [run_bind run_get, run_bind run_peek]
  simp only [ht]
  cases k <;> cases hleaf <;> exact run_bind (run_advance hi)

theorem run_primary_paren {e : Expr} (hi : i < s.last) (hk : s.kindAt i = .symbol .openParen)
    (he : g.assignment s (i + 1) = .ok (e, j)) (hj : j < s.last)
    (hclose : s.kindAt j = .symbol .closeParen) :
    primary g s i = .ok (e.withOrigin (originAt s i (j + 1)), j + 1) := by
  unfold primary
  have ht : (s.get i).kind = .symbol .openParen := hk
  rw [run_bind run_get, run_bind run_peek]
  simp only [ht]
  rw [run_bind (run_advance hi), run_bind he, run_bind (run_expect _ hj hclose)]
  rfl

theorem run_primary_array {items : List Expr} (hi : i < s.last)
    (hk : s.kindAt i = .symbol .openBracket)
    (hitems : separatedUntil .closeBracket g.assignment (s.tokens.size + 1) s (i + 1) =
      .ok (items, j))
    (hj : j < s.last) (hclose : s.kindAt j = .symbol .closeBracket) :
    primary g s i = .ok (.array (originAt s i (j + 1)) items, j + 1) := by
  unfold primary
  have ht : (s.get i).kind = .symbol .openBracket := hk
  rw [run_bind run_get, run_bind run_peek]
  simp only [ht]
  rw [run_bind (run_advance hi), run_bind run_rounds, run_bind hitems,
    run_bind (run_expect _ hj hclose)]
  rfl

theorem run_primary_object {fields : List Field} (hi : i < s.last)
    (hk : s.kindAt i = .symbol .openBrace)
    (hfields : separatedUntil .closeBrace (field g) (s.tokens.size + 1) s (i + 1) =
      .ok (fields, j))
    (hj : j < s.last) (hclose : s.kindAt j = .symbol .closeBrace) :
    primary g s i = .ok (.object (originAt s i (j + 1)) fields, j + 1) := by
  unfold primary
  have ht : (s.get i).kind = .symbol .openBrace := hk
  rw [run_bind run_get, run_bind run_peek]
  simp only [ht]
  rw [run_bind (run_advance hi), run_bind run_rounds, run_bind hfields,
    run_bind (run_expect _ hj hclose)]
  rfl

theorem run_field {key : String} {value : Expr} (hi : i < s.last)
    (hkey : fieldKey? (s.get i) = some key) (hi' : i + 1 < s.last)
    (hcolon : s.kindAt (i + 1) = .symbol .colon)
    (hvalue : g.assignment s (i + 2) = .ok (value, j)) :
    field g s i = .ok (.mk key value, j) := by
  unfold field
  rw [run_bind run_peek, hkey]
  simp only
  rw [run_bind (run_advance hi), run_bind (run_expect _ hi' hcolon), run_bind hvalue]
  rfl

theorem run_arguments_nil (hi : i < s.last) (hk : s.kindAt i = .symbol .openParen)
    (hi' : i + 1 < s.last) (hclose : s.kindAt (i + 1) = .symbol .closeParen) :
    arguments g s i = .ok ([], i + 2) := by
  unfold arguments separatedBefore
  rw [run_bind (run_expect _ hi hk), run_bind (run_unlessAt hclose),
    run_bind (run_expect _ hi' hclose)]
  rfl

theorem run_arguments {args : List Expr} (hi : i < s.last) (hk : s.kindAt i = .symbol .openParen)
    (hne : s.kindAt (i + 1) ≠ .symbol .closeParen)
    (hargs : separated g.assignment (s.tokens.size + 1) s (i + 1) = .ok (args, j))
    (hj : j < s.last) (hclose : s.kindAt j = .symbol .closeParen) :
    arguments g s i = .ok (args, j + 1) := by
  have hlist : separatedBefore .closeParen g.assignment s (i + 1) = .ok (args, j) := by
    unfold separatedBefore
    rw [run_unlessAt_of_ne hne, run_bind run_rounds]
    exact hargs
  unfold arguments
  rw [run_bind (run_expect _ hi hk), run_bind hlist, run_bind (run_expect _ hj hclose)]
  rfl

theorem run_expressionStatement {e : Expr} (h : readAssignment g s i = .ok (e, j))
    (hk : s.kindAt j ≠ .symbol .semicolon) :
    expressionStatement g s i = .ok (.expression (originAt s i j) e, j) := by
  have hsemicolon : semicolon s j = .ok ((), j) := by
    unfold semicolon eatSymbol
    rw [run_bind (run_eat_of_ne hk)]
    rfl
  unfold expressionStatement
  rw [run_bind run_get, run_bind h, run_bind hsemicolon]
  rfl

theorem run_readStatement_paren (hk : s.kindAt i = .symbol .openParen) :
    readStatement g s i = expressionStatement g s i := by
  unfold readStatement
  rw [run_bind run_kind, hk]

end Grammar

end ScriptEngine
