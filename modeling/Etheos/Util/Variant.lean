import Etheos.General.Double
import Etheos.Quest.Saves

/-! A text as a number, through doubles. Every operation of the loop rounds. -/
namespace Etheos.Variants

open General Characters QuestStates

namespace Rounded

/-- `tdparse` before its first character. -/
def start : Parsing := ⟨0, 0, false, double (1 / 10), false, false⟩

def period (s : Parsing) (amount : ℚ) (skip : Bool) : Parsing :=
  ⟨double (s.ret + double amount), 0, false, double (1 / 10), s.negate, skip⟩

def digit (s : Parsing) (d : ℚ) : Parsing :=
  if s.decimal then
    { s with
      val := double (s.val + double (d * s.decimalmulti))
      decimalmulti := double (s.decimalmulti / 10) }
  else { s with val := double (double (s.val * 10) + d) }

/-- One character, with the one behind it. -/
def next (s : Parsing) (c : Char) (behind : Option Char) : Parsing :=
  if s.skip then { s with skip := false }
  else if c = '-' then { s with negate := true }
  else
    let c := c.toLower
    match periodMul c with
    | some mul =>
        if c = 'm' ∧ behind = some 's' then period s (s.val / 1000) true
        else if c = '%' then period s (s.val / mul) false
        else period s (s.val * mul) false
    | none =>
        if c.isDigit then digit s (c.toNat - 48 : Nat)
        else if c = '.' then { s with decimal := true, decimalmulti := double (1 / 10) }
        else s

def run (s : Parsing) : Text → Parsing
  | [] => s
  | c :: rest => run (next s c rest.head?) rest

def value (s : Parsing) : ℚ := double (s.ret + s.val) * if s.negate then -1 else 1

end Rounded

def tdparse (text : Text) : ℚ := Rounded.value (Rounded.run Rounded.start text)

/-- `static_cast<int>` of a double. It is not defined outside the range of an `int`. -/
def castInt (x : ℚ) : Option Int :=
  let n := x.num.tdiv x.den
  if IsInt n then some n else none

/-- `util::to_int`. -/
def toInt (text : Text) : Option Int := castInt (tdparse text)

section Numbers

theorem next_digit {s : Parsing} {c : Char} (hDigit : c.isDigit) (hSkip : s.skip = false)
    (hDecimal : s.decimal = false) (behind : Option Char) :
    Rounded.next s c behind = { s with val := double (double (s.val * 10) + (c.toNat - 48 : Nat)) } := by
  obtain ⟨hSign, hLower, hPeriod⟩ := digit_plain hDigit
  rw [Rounded.next, hSkip, if_neg Bool.false_ne_true, if_neg hSign]
  dsimp only
  rw [hLower, hPeriod]
  dsimp only
  rw [if_pos hDigit, Rounded.digit, hDecimal, if_neg Bool.false_ne_true, hSkip]

/-- Nothing is rounded while a number is below `2 ^ 53`. -/
theorem run_digits {text : Text} (h : ∀ c ∈ text, c.isDigit) {s : Parsing} {n : Nat} (hVal : s.val = n)
    (hSkip : s.skip = false) (hDecimal : s.decimal = false)
    (hMax : n * 10 ^ text.length + Nat.ofDigitChars 10 text 0 < 2 ^ 53) :
    Rounded.run s text =
      { s with val := (n * 10 ^ text.length + Nat.ofDigitChars 10 text 0 : Nat) } := by
  induction text generalizing s n with
  | nil => simp [Rounded.run, ← hVal]
  | cons c rest ih =>
      obtain ⟨hDigit, hRest⟩ := List.forall_mem_cons.mp h
      have hTotal : n * 10 ^ (c :: rest).length + Nat.ofDigitChars 10 (c :: rest) 0 =
          (n * 10 + (c.toNat - 48)) * 10 ^ rest.length + Nat.ofDigitChars 10 rest 0 := by
        rw [ofDigitChars_cons_zero, List.length_cons, pow_succ]
        ring
      rw [hTotal] at hMax ⊢
      have hPart : n * 10 + (c.toNat - 48) ≤
          (n * 10 + (c.toNat - 48)) * 10 ^ rest.length + Nat.ofDigitChars 10 rest 0 :=
        (Nat.le_mul_of_pos_right _ (Nat.pow_pos (by decide))).trans (Nat.le_add_right _ _)
      have hTimes : double (s.val * 10) = (n * 10 : Nat) := by
        rw [hVal, ← double_natCast (n := n * 10) (by omega)]
        push_cast
        rfl
      have hNext : double (double (s.val * 10) + (c.toNat - 48 : Nat)) =
          (n * 10 + (c.toNat - 48) : Nat) := by
        rw [hTimes, ← double_natCast (n := n * 10 + (c.toNat - 48)) (by omega)]
        push_cast
        rfl
      have hBehind := ih hRest (s := { s with val := (n * 10 + (c.toNat - 48) : Nat) }) rfl hSkip hDecimal hMax
      rw [Rounded.run, next_digit hDigit hSkip hDecimal, hNext, hBehind]

theorem run_toDigits {s : Parsing} {n : Nat} (hn : n < 2 ^ 53) (hVal : s.val = 0) (hSkip : s.skip = false)
    (hDecimal : s.decimal = false) : Rounded.run s (Nat.toDigits 10 n) = { s with val := n } := by
  have hZero : s.val = (0 : Nat) := by rw [hVal, Nat.cast_zero]
  have hRun := run_digits (digits_isDigit n) hZero hSkip hDecimal
    (by rwa [Nat.zero_mul, Nat.zero_add, Nat.ofDigitChars_ten_toDigits])
  rwa [Nat.zero_mul, Nat.zero_add, Nat.ofDigitChars_ten_toDigits] at hRun

/-- The rounding does not show in whole numbers below `2 ^ 53`. -/
theorem tdparse_toText {n : Int} (hn : n.natAbs < 2 ^ 53) : tdparse (toText n) = QuestStates.tdparse (toText n) := by
  rw [QuestStates.tdparse_toText]
  unfold tdparse toText
  split
  case isTrue hNeg =>
    have hAbs : ((n.natAbs : Nat) : ℚ) = -n := by rw [Nat.cast_natAbs, abs_of_neg hNeg, Int.cast_neg]
    have hSign : Rounded.next Rounded.start '-' (Nat.toDigits 10 n.natAbs).head? =
        { Rounded.start with negate := true } := rfl
    have hExact : double (-n) = -n := hAbs ▸ double_natCast hn
    rw [Rounded.run, hSign, run_toDigits hn rfl rfl rfl]
    simp [Rounded.value, Rounded.start, hAbs, hExact]
  case isFalse hPos =>
    have hAbs : ((n.natAbs : Nat) : ℚ) = n := by rw [Nat.cast_natAbs, abs_of_nonneg (Int.not_lt.mp hPos)]
    have hExact : double n = n := hAbs ▸ double_natCast hn
    rw [run_toDigits hn rfl rfl rfl]
    simp [Rounded.value, Rounded.start, hAbs, hExact]

/-- An `int` that is written is read again. -/
theorem toInt_toText {n : Int} (hn : IsInt n) : toInt (toText n) = some n := by
  have hAbs : n.natAbs < 2 ^ 53 := by
    unfold IsInt at hn
    omega
  have hWhole : (n : ℚ).num.tdiv (n : ℚ).den = n := by
    rw [Rat.num_intCast, Rat.den_intCast]
    exact Int.tdiv_one n
  rw [toInt, tdparse_toText hAbs, QuestStates.tdparse_toText, castInt, hWhole]
  exact if_pos hn

end Numbers

end Etheos.Variants
