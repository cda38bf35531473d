/-!
# Digits

A run of decimal digits is read by joining neighbours: digits of base ten become half as many of
base hundred, and so on until one is left. The result is the number that reading digit by digit
gives (`naturalOf_eq_foldl`), but a long run takes only a few large multiplications. In another
radix digits go on from nine with the letters, in either case, and a run of them is accumulated in
floating point, so that a long run loses precision where a machine word would overflow.
-/

namespace ScriptEngine.Numeric

def isDigit (c : Char) : Bool :=
  '0' ≤ c && c ≤ '9'

def digitValue (c : Char) : Nat :=
  c.toNat - 48

def digitSum (base : Nat) (ds : List Nat) : Nat :=
  ds.foldr (fun d n => n * base + d) 0

/-- Neighbouring digits, the lowest first, as digits of the squared base. -/
def joinNeighbours (base : Nat) : List Nat → List Nat
  | low :: high :: rest => (high * base + low) :: joinNeighbours base rest
  | rest => rest

def joinDigits : Nat → Nat → List Nat → Nat
  | 0, _, _ => 0
  | _ + 1, _, [] => 0
  | _ + 1, _, [d] => d
  | rounds + 1, base, ds => joinDigits rounds (base * base) (joinNeighbours base ds)

def naturalOf (ds : List Char) : Nat :=
  joinDigits ds.length 10 (ds.reverse.map digitValue)

theorem digitSum_joinNeighbours (base : Nat) (ds : List Nat) :
    digitSum (base * base) (joinNeighbours base ds) = digitSum base ds := by
  fun_induction joinNeighbours base ds with
  | case1 low high rest ih =>
    simp only [digitSum, List.foldr_cons] at ih ⊢
    rw [ih]
    grind
  | case2 rest hrest =>
    match rest, hrest with
    | [], _ => rfl
    | [d], _ => simp [digitSum]
    | low :: high :: rest, h => exact absurd rfl (h low high rest)

theorem length_joinNeighbours_le (base : Nat) (ds : List Nat) :
    (joinNeighbours base ds).length ≤ ds.length := by
  fun_induction joinNeighbours base ds with
  | case1 low high rest ih => simp only [List.length_cons]; omega
  | case2 rest _ => exact Nat.le_refl _

theorem joinDigits_eq_digitSum (rounds base : Nat) (ds : List Nat) (h : ds.length ≤ rounds) :
    joinDigits rounds base ds = digitSum base ds := by
  fun_induction joinDigits rounds base ds with
  | case1 base ds =>
    rw [List.length_eq_zero_iff.1 (Nat.le_zero.1 h)]
    rfl
  | case2 => rfl
  | case3 => simp [digitSum]
  | case4 rounds base ds hnil hsingle ih =>
    rw [ih, digitSum_joinNeighbours]
    match ds, hnil, hsingle with
    | [], hnil, _ => exact absurd rfl hnil
    | [d], _, hsingle => exact absurd rfl (hsingle d)
    | low :: high :: rest, _, _ =>
      have hrest := length_joinNeighbours_le base rest
      simp only [joinNeighbours, List.length_cons] at h ⊢
      omega

theorem naturalOf_eq_foldl (ds : List Char) :
    naturalOf ds = ds.foldl (fun n c => n * 10 + digitValue c) 0 := by
  rw [naturalOf, joinDigits_eq_digitSum _ _ _ (by simp)]
  simp [digitSum, List.foldr_reverse, List.foldl_map]

def digitRank? (c : Char) : Option Nat :=
  if '0' ≤ c && c ≤ '9' then some (c.toNat - 48)
  else if 'a' ≤ c && c ≤ 'z' then some (c.toNat - 87)
  else if 'A' ≤ c && c ≤ 'Z' then some (c.toNat - 55)
  else none

def radixDigit? (radix : Nat) (c : Char) : Option Nat :=
  (digitRank? c).filter (· < radix)

def isRadixDigit (radix : Nat) (c : Char) : Bool :=
  (radixDigit? radix c).isSome

def pushDigit (radix : Nat) (acc : Float) (digit : Nat) : Float :=
  acc * Float.ofNat radix + Float.ofNat digit

def readRadix? (radix : Nat) (cs : List Char) : Option Float :=
  cs.foldlM (fun acc c => (radixDigit? radix c).map (pushDigit radix acc)) 0

end ScriptEngine.Numeric
