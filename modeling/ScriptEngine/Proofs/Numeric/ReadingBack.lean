import ScriptEngine.Evaluation.Natives
import ScriptEngine.Proofs.Numeric.DecimalGrammar
import ScriptEngine.Proofs.Numeric.Encoding
import ScriptEngine.Proofs.Token.ByteScan
import ScriptEngine.Proofs.Token.Rescanning

/-!
# Numbers survive their text

The text of a number other than the one that is not a number is read as that number, and the text of
a finite number that is not negative is one token whose value is that number. Zeros have one text,
so the numbers are equal and their bits need not be.
-/

namespace ScriptEngine.Numeric

section Sizes

theorem two_pow_le_ten_pow (n : ℕ) : 2 ^ n ≤ 10 ^ (31 * n / 100 + 1) := by
  have hrest : ∀ r < 100, 2 ^ r ≤ 10 ^ (31 * r / 100 + 1) := by decide
  have hexponent : 31 * n / 100 + 1 = 31 * (n / 100) + (31 * (n % 100) / 100 + 1) := by omega
  calc 2 ^ n = (2 ^ 100) ^ (n / 100) * 2 ^ (n % 100) := by
        rw [← pow_mul, ← pow_add, Nat.div_add_mod]
    _ ≤ (10 ^ 31) ^ (n / 100) * 10 ^ (31 * (n % 100) / 100 + 1) :=
        Nat.mul_le_mul (Nat.pow_le_pow_left (by norm_num) _) (hrest _ (Nat.mod_lt n (by norm_num)))
    _ = 10 ^ (31 * n / 100 + 1) := by rw [← pow_mul, ← pow_add, hexponent]

theorem ten_pow_le_two_pow (n : ℕ) : 10 ^ (3 * n / 10) ≤ 2 ^ n := by
  have hrest : ∀ r < 10, 10 ^ (3 * r / 10) ≤ 2 ^ r := by decide
  have hexponent : 3 * n / 10 = 3 * (n / 10) + 3 * (n % 10) / 10 := by omega
  calc 10 ^ (3 * n / 10) = (10 ^ 3) ^ (n / 10) * 10 ^ (3 * (n % 10) / 10) := by
        rw [← pow_mul, ← pow_add, hexponent]
    _ ≤ (2 ^ 10) ^ (n / 10) * 2 ^ (n % 10) :=
        Nat.mul_le_mul (Nat.pow_le_pow_left (by norm_num) _) (hrest _ (Nat.mod_lt n (by norm_num)))
    _ = 2 ^ n := by rw [← pow_mul, ← pow_add, Nat.div_add_mod]

variable {d : Decimal}

theorem value_lt_of_small
    (h : 31 * (Int.ofNat d.significand.log2 + 1) / 100 + 1 + d.exponent < -330) :
    d.value < 10 ^ (-330 : ℤ) := by
  have hlog : d.significand < 2 ^ (d.significand.log2 + 1) := Nat.lt_log2_self
  have hten := two_pow_le_ten_pow (d.significand.log2 + 1)
  have hbound : (d.significand : ℚ) <
      10 ^ ((31 * (d.significand.log2 + 1) / 100 + 1 : ℕ) : ℤ) := by
    exact_mod_cast hlog.trans_le hten
  calc d.value < 10 ^ ((31 * (d.significand.log2 + 1) / 100 + 1 : ℕ) : ℤ) * 10 ^ d.exponent := by
        unfold Decimal.value
        gcongr
    _ = (10 : ℚ) ^ (((31 * (d.significand.log2 + 1) / 100 + 1 : ℕ) : ℤ) + d.exponent) := by
        rw [zpow_add₀ (by norm_num)]
    _ ≤ 10 ^ (-330 : ℤ) := by
        apply zpow_le_zpow_right₀ (by norm_num)
        simp only [Int.ofNat_eq_natCast] at h
        push_cast
        omega

theorem le_value_of_large (h : 310 < 3 * Int.ofNat d.significand.log2 / 10 + d.exponent)
    (hpos : d.significand ≠ 0) : (10 : ℚ) ^ (310 : ℤ) ≤ d.value := by
  have hlog : 2 ^ d.significand.log2 ≤ d.significand := Nat.log2_self_le hpos
  have hten := ten_pow_le_two_pow d.significand.log2
  have hbound : (10 : ℚ) ^ ((3 * d.significand.log2 / 10 : ℕ) : ℤ) ≤ d.significand := by
    exact_mod_cast hten.trans hlog
  calc (10 : ℚ) ^ (310 : ℤ) ≤ 10 ^ (((3 * d.significand.log2 / 10 : ℕ) : ℤ) + d.exponent) := by
        apply zpow_le_zpow_right₀ (by norm_num)
        simp only [Int.ofNat_eq_natCast] at h
        push_cast
        omega
    _ = 10 ^ ((3 * d.significand.log2 / 10 : ℕ) : ℤ) * 10 ^ d.exponent := by
        rw [zpow_add₀ (by norm_num)]
    _ ≤ d.value := by
        unfold Decimal.value
        gcongr

theorem Neighbourhood.bounds_of_holds {m : ℕ} {e : ℤ} {x : ℚ} (hd : IsPositiveDouble m e)
    (h : (around m e).Holds x) : (10 : ℚ) ^ (-330 : ℤ) ≤ x ∧ x < 10 ^ (310 : ℤ) := by
  have hpow : (0 : ℚ) < 2 ^ e := by positivity
  obtain ⟨hlow, hhigh, -⟩ := (holds_iff hd.pos x).1 h
  rw [le_div_iff₀ hpow] at hlow
  rw [div_le_iff₀ hpow] at hhigh
  have hreach := reach_le_half m e
  have hone : (1 : ℚ) ≤ m := by exact_mod_cast hd.pos
  have hm : (m : ℚ) < 0x20000000000000 := by exact_mod_cast hd.lt
  have hsmallest : 2 ^ 1075 ≤ 10 ^ 330 := by decide +kernel
  have hlargest : 2 ^ 1025 < 10 ^ 310 := by decide +kernel
  constructor
  · calc (10 : ℚ) ^ (-330 : ℤ) ≤ 2 ^ (-1075 : ℤ) := by
          rw [zpow_neg, zpow_neg, inv_le_inv₀ (by positivity) (by positivity)]
          exact_mod_cast hsmallest
      _ ≤ 2 ^ (e - 1) := zpow_le_zpow_right₀ (by norm_num) (by linarith only [hd.smallest])
      _ = 1 / 2 * 2 ^ e := by
          rw [zpow_sub₀ two_ne_zero]
          ring
      _ ≤ (m - reach m e) * 2 ^ e := by
          gcongr
          linarith only [hreach, hone]
      _ ≤ x := hlow
  · calc x ≤ (m + 1 / 2) * 2 ^ e := hhigh
      _ ≤ 2 ^ 54 * 2 ^ e := by
          gcongr
          linarith only [hm]
      _ = 2 ^ (e + 54) := by
          rw [zpow_add₀ two_ne_zero, mul_comm]
          rfl
      _ ≤ 2 ^ (1025 : ℤ) := zpow_le_zpow_right₀ (by norm_num) (by linarith only [hd.largest])
      _ < 10 ^ (310 : ℤ) := by exact_mod_cast hlargest

theorem toFloat_of_holds {m : ℕ} {e : ℤ} (hd : IsPositiveDouble m e)
    (h : (Neighbourhood.around m e).Holds d.value) (negative : Bool) :
    d.toFloat negative = pack negative ((e + 1074).toNat * 0x10000000000000 + m) := by
  obtain ⟨hsmall, hlarge⟩ := Neighbourhood.bounds_of_holds hd h
  have hpos : d.significand ≠ 0 := by
    intro hzero
    have hvalue := Neighbourhood.pos_of_holds hd.pos h
    simp [Decimal.value, hzero] at hvalue
  have hratio : ((d.significand * 10 ^ d.exponent.toNat : ℕ) : ℚ) / (10 ^ (-d.exponent).toNat : ℕ) =
      d.value := by
    have := cast_scale_div_scale 10 d.significand 1 d.exponent
    simpa [Decimal.value] using this
  -- neither of the guards on the size takes the decimal for zero or for infinity
  unfold Decimal.toFloat ofRatio
  dsimp only
  rw [if_neg, if_neg]
  · congr 1
    apply magnitudeBits_of_holds hd
    · exact Nat.mul_pos (Nat.pos_of_ne_zero hpos) (Nat.pow_pos (by norm_num))
    · exact Nat.pow_pos (by norm_num)
    · simp only [Nat.pow_eq]
      rw [hratio]
      exact h
  · intro hguard
    exact absurd (le_value_of_large hguard hpos) (not_le.2 hlarge)
  · rintro (hzero | hguard)
    · exact hpos hzero
    · exact absurd (value_lt_of_small hguard) (not_lt.2 hsmall)

end Sizes

section Readers

theorem mem_of_isDigit {c : Char} (h : isDigit c = true) :
    c ∈ ['0', '1', '2', '3', '4', '5', '6', '7', '8', '9'] := by
  simp only [isDigit, Bool.and_eq_true, decide_eq_true_eq] at h
  have hlow : 48 ≤ c.toNat := h.1
  have hhigh : c.toNat ≤ 57 := h.2
  rw [← Char.ofNat_toNat c]
  interval_cases c.toNat <;> decide

theorem of_isDigit {p : Char → Bool}
    (hp : ['0', '1', '2', '3', '4', '5', '6', '7', '8', '9'].all p = true) {c : Char}
    (h : isDigit c = true) : p c = true :=
  List.all_eq_true.1 hp c (mem_of_isDigit h)

theorem isBlank_of_visible {c : Char} (hlow : 32 < c.toNat) (hhigh : c.toNat < 127) :
    Text.isBlank c = false := by
  rw [Bool.eq_false_iff, ne_eq, Text.isBlank, Text.CharSet.contains, Text.CharSet.covers_iff]
  simp only [Text.blanks, List.mem_toArray, List.mem_cons, List.not_mem_nil, or_false,
    exists_eq_or_imp, exists_eq_left]
  omega

theorem isBlank_of_isDecimalChar {c : Char} (h : isDecimalChar c = true) :
    Text.isBlank c = false := by
  by_cases hdigit : isDigit c = true
  · obtain ⟨hlow, hhigh⟩ : 48 ≤ c.toNat ∧ c.toNat ≤ 57 := Char.isDigit_iff_toNat.mp hdigit
    exact isBlank_of_visible (by omega) (by omega)
  · obtain rfl | rfl | rfl | rfl | rfl : c = '.' ∨ c = 'e' ∨ c = 'E' ∨ c = '+' ∨ c = '-' := by
      simpa [isDecimalChar, hdigit, or_assoc] using h
    all_goals exact isBlank_of_visible (by decide) (by decide)

theorem trim_of_not_blank {cs : List Char} (h : ∀ c ∈ cs, Text.isBlank c = false) :
    Text.trim cs = cs := by
  have hdrop : ∀ ds : List Char, (∀ c ∈ ds, Text.isBlank c = false) →
      ds.dropWhile Text.isBlank = ds := by
    intro ds hds
    cases ds with
    | nil => rfl
    | cons c ds => simp [hds c List.mem_cons_self]
  unfold Text.trim Text.trimEnd Text.trimStart
  rw [hdrop cs h, hdrop cs.reverse (by simpa using h), List.reverse_reverse]

theorem radixOfMark?_of_isDecimal {c : Char} {cs : List Char}
    (h : Lexeme.IsDecimal ('0' :: c :: cs)) : radixOfMark? c = none := by
  cases hmark : radixOfMark? c with
  | none => rfl
  | some radix =>
    have hlength := Lexeme.length_le_takeDecimal h (List.prefix_refl _)
    rw [Lexeme.takeDecimal_of_mark hmark] at hlength
    simp at hlength

theorem splitRadix?_of_all {cs : List Char} (h : ∀ c ∈ cs, isDecimalChar c = true) :
    splitRadix? cs = none := by
  unfold splitRadix?
  split
  next c cs =>
    have hc := h c (List.mem_cons_of_mem _ List.mem_cons_self)
    rw [Option.map_eq_none_iff, Option.eq_none_iff_forall_ne_some]
    intro radix hmark
    obtain ⟨-, rfl | rfl⟩ | ⟨-, rfl | rfl⟩ | ⟨-, rfl | rfl⟩ := Lexeme.radixOfMark?_eq_some hmark <;>
      exact absurd hc (by decide)
  next => rfl

theorem infinityWord?_of_all {cs : List Char} (h : ∀ c ∈ cs, isDecimalChar c = true) :
    infinityWord? cs = none := by
  have hwords : ∀ w ∈ ["Infinity".toList, "+Infinity".toList, "-Infinity".toList],
      w.all isDecimalChar = false := by decide
  have hne : ∀ w ∈ ["Infinity".toList, "+Infinity".toList, "-Infinity".toList], cs ≠ w := by
    rintro w hw rfl
    exact Bool.eq_false_iff.1 (hwords cs hw) (List.all_eq_true.2 h)
  simp only [List.forall_mem_cons] at hne
  simp only [infinityWord?, hne, or_self, if_false]

def signText (negative : Bool) : List Char :=
  if negative then ['-'] else []

theorem Spelling.exists_head (s : Spelling) : ∃ c cs, s.text = c :: cs ∧ isDigit c = true := by
  obtain ⟨c, cs, htext⟩ := List.exists_cons_of_ne_nil
    (show s.text ≠ [] by simp [Spelling.text, s.whole_ne_nil])
  exact ⟨c, cs, htext, Lexeme.isDigit_of_isDecimal (htext ▸ s.isDecimal)⟩

theorem Spelling.readFloat? (s : Spelling) (negative : Bool) :
    Numeric.readFloat? (signText negative ++ s.text) = some (s.decimal.toFloat negative) := by
  obtain ⟨c, cs, htext, hc⟩ := s.exists_head
  have hsplit : splitSign (signText negative ++ s.text) = (negative, s.text) := by
    cases negative with
    | true => rfl
    | false =>
      rw [htext]
      exact splitSign_of_isDigit hc cs
  unfold Numeric.readFloat?
  rw [hsplit]
  dsimp only
  rw [htext, specialOf?_of_isDigit hc, ← htext, s.read?_text]
  rfl

theorem ofChars_of_all {cs : List Char} (hall : ∀ c ∈ cs, isDecimalChar c = true) (hne : cs ≠ []) :
    Numeric.ofChars cs = (Numeric.readFloat? cs).getD nan := by
  have hnonempty : cs.isEmpty = false := by simpa using hne
  unfold Numeric.ofChars
  rw [trim_of_not_blank fun c hc => isBlank_of_isDecimalChar (hall c hc)]
  simp only [hnonempty, splitRadix?_of_all hall, infinityWord?_of_all hall, List.all_eq_true.2 hall,
    Bool.false_eq_true, if_false, if_true]

theorem Spelling.ofChars (s : Spelling) (negative : Bool) :
    Numeric.ofChars (signText negative ++ s.text) = s.decimal.toFloat negative := by
  have hall : ∀ c ∈ signText negative ++ s.text, isDecimalChar c = true := by
    intro c hc
    obtain hc | hc := List.mem_append.1 hc
    · cases negative with
      | true =>
        cases List.mem_singleton.1 hc
        decide
      | false => cases hc
    · exact (isUnsignedDecimal_of_isDecimal s.isDecimal).isDecimalChar c hc
  have hne : signText negative ++ s.text ≠ [] := by
    obtain ⟨c, cs, htext, -⟩ := s.exists_head
    simp [htext]
  rw [ofChars_of_all hall hne, s.readFloat?, Option.getD_some]

theorem Spelling.takeDecimal (s : Spelling) : Lexeme.takeDecimal s.text = s.text :=
  List.IsPrefix.eq_of_length_le (Lexeme.takes_decimal.isPrefix s.text)
    (Lexeme.length_le_takeDecimal s.isDecimal (List.prefix_refl _))

theorem next_of_isDigit {c : Char} (h : isDigit c = true) (cs : List Char) :
    Lexeme.next c cs = Lexeme.number (c :: cs) := by
  have hquote : (!Lexeme.isQuote c) = true :=
    of_isDigit (p := fun c => !Lexeme.isQuote c) (by decide) h
  rw [Bool.not_eq_true'] at hquote
  unfold Lexeme.next
  simp only [hquote, h, Bool.false_eq_true, if_false, if_true]

theorem starts_of_isDigit {c : Char} (h : isDigit c = true) (cs : List Char) :
    Lexeme.Starts c cs := by
  have hstarts : (!Lexeme.isGap c && c != '/') = true :=
    of_isDigit (p := fun c => !Lexeme.isGap c && c != '/') (by decide) h
  simp only [Bool.and_eq_true, Bool.not_eq_true', bne_iff_ne] at hstarts
  exact ⟨hstarts.1, fun heq => absurd heq hstarts.2⟩

theorem Spelling.scan (s : Spelling) :
    ∃ t p, Token.scan (String.ofList s.text) = .ok [t, Token.atEnd p] ∧
      t.kind = .number .decimal ∧ t.literalValue? = some (s.decimal.toFloat false) := by
  obtain ⟨c, cs, htext, hc⟩ := s.exists_head
  have hnext : Lexeme.next c (cs ++ []) = .ok ⟨.number .decimal, s.text⟩ := by
    rw [next_of_isDigit hc, List.append_nil, ← htext, Lexeme.number_decimal, s.takeDecimal]
    intro c cs heq
    exact radixOfMark?_of_isDecimal (heq ▸ s.isDecimal)
  have hsplit : Lexeme.splitGap .blank s.text = ([], c :: (cs ++ [])) := by
    rw [htext, List.append_nil, Lexeme.splitGap_of_starts (starts_of_isDigit hc cs)]
  have hend : ∀ p, Token.scanFrom p [] = .ok [Token.atEnd (p.advance [])] :=
    fun p => Token.scanFrom_of_gap rfl
  have hscan := Token.scanFrom_of_next (p := Text.Position.first) hsplit hnext htext (hend _)
  have hchars : Token.scan (String.ofList s.text) = Token.scanFrom Text.Position.first s.text := by
    rw [Token.scan_eq_scanFrom, String.toList_ofList]
  refine ⟨_, _, hchars.trans hscan, rfl, ?_⟩
  change Numeric.readFloat? (String.ofList s.text).toList = _
  rw [String.toList_ofList]
  exact s.readFloat? false

end Readers

section Numbers

theorem natAbs_point_le {m : ℕ} {e : ℤ} (hd : IsPositiveDouble m e) :
    ((shortest m e).point - 1).natAbs ≤ exponentLimit := by
  obtain ⟨hproper, hholds⟩ := shortest_reads_back hd
  obtain ⟨hsmall, hlarge⟩ := Neighbourhood.bounds_of_holds hd hholds
  have hhigh : (shortest m e).point - 1 < 310 :=
    (zpow_lt_zpow_iff_right₀ (by norm_num)).1 (hproper.low.trans_lt hlarge)
  have hlow : -330 < (shortest m e).point :=
    (zpow_lt_zpow_iff_right₀ (by norm_num)).1 (hsmall.trans_lt hproper.high)
  unfold exponentLimit
  omega

theorem beq_zero_of_decode {x : Float} {negative : Bool} {e : ℤ}
    (h : decode x = .finite negative 0 e) : (Spelling.zero.decimal.toFloat false == x) = true := by
  obtain ⟨-, -, -, hfull, -⟩ := of_decodeBits_finite h
  obtain rfl : e = -1074 := hfull.resolve_right (by norm_num)
  rw [← pack_of_decode h]
  cases negative with
  | false => decide
  | true => decide

theorem exists_spelling_of_ne_zero {x : Float} {negative : Bool} {m : ℕ} {e : ℤ}
    (h : decode x = .finite negative m e) (hm : m ≠ 0) :
    ∃ s : Spelling, numeral x = signText negative ++ s.text ∧ s.decimal.toFloat negative = x := by
  have hd := isPositiveDouble_of_decode h hm
  obtain ⟨hproper, hholds⟩ := shortest_reads_back hd
  obtain ⟨s, htext, hvalue⟩ := numeralLayout.exists_spelling hproper (natAbs_point_le hd)
  refine ⟨s, ?_, ?_⟩
  · unfold numeral
    rw [h]
    dsimp only
    rw [if_neg hm, htext]
    cases negative <;> rfl
  · rw [toFloat_of_holds hd (hvalue ▸ hholds), pack_of_decode h]

theorem exists_spelling_of_decode {x : Float} {negative : Bool} {m : ℕ} {e : ℤ}
    (h : decode x = .finite negative m e) :
    ∃ s : Spelling, numeral x = signText (negative && m != 0) ++ s.text ∧
      (s.decimal.toFloat (negative && m != 0) == x) = true := by
  by_cases hm : m = 0
  · subst hm
    rw [bne_self_eq_false, Bool.and_false]
    refine ⟨Spelling.zero, ?_, beq_zero_of_decode h⟩
    unfold numeral
    rw [h]
    rfl
  · obtain ⟨s, htext, hvalue⟩ := exists_spelling_of_ne_zero h hm
    have hsign : (negative && m != 0) = negative := by simp [hm]
    rw [hsign]
    refine ⟨s, htext, ?_⟩
    rw [hvalue]
    apply beq_self_of_isNumber
    unfold IsNumber
    rw [unpack_of_decode h (Nat.pos_of_ne_zero hm)]
    exact Float.Model.UnpackedFloat.noConfusion

theorem nonneg_of_zero_le {x : Float} {negative : Bool} {m : ℕ} {e : ℤ}
    (h : decode x = .finite negative m e) (hx : 0 ≤ x) : (negative && m != 0) = false := by
  by_contra hbelow
  rw [Bool.not_eq_false, Bool.and_eq_true, bne_iff_ne] at hbelow
  obtain ⟨rfl, hm⟩ := hbelow
  have hle : (0 : Float).toModel.unpack.le x.toModel.unpack = true := by
    change decide ((0 : Float).toModel ≤ x.toModel) = true at hx
    exact of_decide_eq_true hx
  have hzero : (0 : Float).toModel.unpack = .zero .positive := rfl
  rw [hzero, unpack_of_decode h (Nat.pos_of_ne_zero hm)] at hle
  cases hle

theorem eq_of_decode_infinite {x : Float} {negative : Bool} (h : decode x = .infinite negative) :
    x = if negative then negInfinity else infinity := by
  have hbits := toNat_of_decodeBits_infinite h
  rw [← ofBits_toBits x]
  cases negative with
  | false =>
    apply congrArg Float.ofBits
    rw [← UInt64.toNat_inj, hbits]
    rfl
  | true =>
    apply congrArg Float.ofBits
    rw [← UInt64.toNat_inj, hbits]
    rfl

theorem ofText_render {x : Float} (h : isNaN x = false) : (ofText (render x) == x) = true := by
  unfold ofText render
  rw [String.toList_ofList]
  cases hx : decode x with
  | nan =>
    rw [isNaN_iff.2 hx] at h
    cases h
  | infinite negative =>
    obtain rfl := eq_of_decode_infinite hx
    cases negative with
    | false => decide +kernel
    | true => decide +kernel
  | finite negative m e =>
    obtain ⟨s, htext, hvalue⟩ := exists_spelling_of_decode hx
    rw [htext, s.ofChars]
    exact hvalue

theorem scan_render {x : Float} (hfinite : isFinite x = true) (hx : 0 ≤ x) :
    ∃ t p, Token.scan (render x) = .ok [t, Token.atEnd p] ∧ t.kind = .number .decimal ∧
      ∃ y, t.literalValue? = some y ∧ (y == x) = true := by
  cases hdecode : decode x with
  | nan =>
    unfold isFinite at hfinite
    rw [hdecode] at hfinite
    cases hfinite
  | infinite negative =>
    unfold isFinite at hfinite
    rw [hdecode] at hfinite
    cases hfinite
  | finite negative m e =>
    obtain ⟨s, htext, hvalue⟩ := exists_spelling_of_decode hdecode
    rw [nonneg_of_zero_le hdecode hx] at htext hvalue
    obtain ⟨t, p, hscan, hkind, hliteral⟩ := s.scan
    refine ⟨t, p, ?_, hkind, _, hliteral, hvalue⟩
    unfold render
    rw [htext]
    exact hscan

/-- Every number is equal to its text, and a finite one that is not negative is the value of the one
token that its text is. -/
theorem numbers_survive_text (x : Float) (hnumber : isNaN x = false) :
    (ofText (render x) == x) = true ∧
    (∀ invoke receiver m,
      Native.run invoke .stringConstructor receiver [.number x] m = .ok (.string (render x)) m ∧
      Eval.looseEquals invoke (.number x) (.string (render x)) m = .ok true m) ∧
    (isFinite x = true → 0 ≤ x →
      ∃ t p, Token.scan (render x) = .ok [t, Token.atEnd p] ∧ t.kind = .number .decimal ∧
        ∃ y, t.literalValue? = some y ∧ (y == x) = true) := by
  have hback := ofText_render hnumber
  refine ⟨hback, fun invoke receiver m => ⟨rfl, ?_⟩, scan_render⟩
  have hequal : (Value.number x).looseBasic (.string (render x)) = true := by
    change (x == ofText (render x)) = true
    rw [beq_comm, hback]
  change EStateM.Result.ok ((Value.number x).looseBasic (.string (render x))) m = _
  rw [hequal]

/-- The smallest positive double, whose text has an exponent. -/
theorem numbers_survive_text_smallest :
    (ofText (render (Float.ofBits 1)) == Float.ofBits 1) = true ∧
    ∃ t p, Token.scan (render (Float.ofBits 1)) = .ok [t, Token.atEnd p] ∧
      ∃ y, t.literalValue? = some y ∧ (y == Float.ofBits 1) = true := by
  obtain ⟨hback, -, hscan⟩ := numbers_survive_text (Float.ofBits 1) (by decide)
  obtain ⟨t, p, htokens, -, hvalue⟩ := hscan (by decide) (by decide)
  exact ⟨hback, t, p, htokens, hvalue⟩

end Numbers

end ScriptEngine.Numeric
