import Mathlib.Algebra.Order.Round
import Mathlib.Data.Int.Log
import Mathlib.Data.Rat.Floor
import Mathlib.Tactic.Linarith
import Mathlib.Tactic.Positivity

/-! Rounding of exact numbers to the nearest double. -/
namespace General

/-- The nearest integer. Halfway between two it is the even one. -/
def roundEven (x : ℚ) : ℤ :=
  if x - ⌊x⌋ < 1 / 2 then ⌊x⌋
  else if 1 / 2 < x - ⌊x⌋ then ⌊x⌋ + 1
  else if ⌊x⌋ % 2 = 0 then ⌊x⌋
  else ⌊x⌋ + 1

@[simp] theorem roundEven_intCast (n : ℤ) : roundEven n = n := by
  simp [roundEven]

/-- The exponent of the last of the 53 bits of a double. Small numbers keep fewer bits. -/
def lastBit (x : ℚ) : ℤ := max (Int.log 2 |x| - 52) (-1074)

/-- The nearest double. The largest double is not a limit here. -/
def double (x : ℚ) : ℚ := roundEven (x / 2 ^ lastBit x) * 2 ^ lastBit x

theorem double_of_multiple {x : ℚ} {m : ℤ} (h : x = m * 2 ^ lastBit x) : double x = x := by
  have hPos : (2 : ℚ) ^ lastBit x ≠ 0 := zpow_ne_zero _ two_ne_zero
  have hQuotient : x / 2 ^ lastBit x = m := by rw [div_eq_iff hPos, ← h]
  rw [double, hQuotient, roundEven_intCast, ← h]

theorem roundEven_mono {x y : ℚ} (h : x ≤ y) : roundEven x ≤ roundEven y := by
  have hFloor := Int.floor_le_floor h
  have hLow : ∀ z : ℚ, ⌊z⌋ ≤ roundEven z ∧ roundEven z ≤ ⌊z⌋ + 1 := by
    intro z
    unfold roundEven
    split_ifs <;> omega
  obtain hSame | hLess := eq_or_lt_of_le hFloor
  · unfold roundEven
    rw [← hSame]
    split_ifs <;> first | omega | (exfalso; linarith)
  · have hBelow := (hLow x).2
    have hAbove := (hLow y).1
    omega

theorem roundEven_nonneg {x : ℚ} (h : 0 ≤ x) : 0 ≤ roundEven x := by
  have hZero : roundEven 0 = 0 := by exact_mod_cast roundEven_intCast 0
  rw [← hZero]
  exact roundEven_mono h

theorem double_nonneg {x : ℚ} (h : 0 ≤ x) : 0 ≤ double x := by
  have hPower : (0 : ℚ) ≤ 2 ^ lastBit x := zpow_nonneg zero_le_two _
  exact mul_nonneg (by exact_mod_cast roundEven_nonneg (div_nonneg h hPower)) hPower

@[simp] theorem double_zero : double 0 = 0 :=
  double_of_multiple (m := 0) (by simp)

theorem lastBit_dyadic {n k : ℕ} (hPos : 0 < n) (h : n < 2 ^ 53) (hk : k ≤ 1074) : lastBit (n / 2 ^ k) ≤ -k := by
  have hNumber : (0 : ℚ) < n / 2 ^ k := by positivity
  have hSmall : (n / 2 ^ k : ℚ) < 2 ^ (53 - k : ℤ) := by
    rw [zpow_sub₀ two_ne_zero, zpow_natCast, div_lt_div_iff_of_pos_right (by positivity)]
    exact_mod_cast h
  have hLog : Int.log 2 (n / 2 ^ k : ℚ) < 53 - k :=
    (Int.lt_zpow_iff_log_lt (by decide) hNumber).mp (by rw [Nat.cast_ofNat]; exact hSmall)
  rw [lastBit, abs_of_pos hNumber]
  omega

/-- Natural numbers below `2 ^ 53` are doubles, and so are their halves, and the halves of these. -/
theorem double_dyadic {n k : ℕ} (h : n < 2 ^ 53) (hk : k ≤ 1074) : double (n / 2 ^ k) = n / 2 ^ k := by
  obtain rfl | hPos := n.eq_zero_or_pos
  · simp
  · obtain ⟨j, hj⟩ := Int.exists_eq_neg_ofNat ((lastBit_dyadic hPos h hk).trans (by omega))
    have hBit := lastBit_dyadic hPos h hk
    have hSum : (2 : ℚ) ^ j = 2 ^ (j - k) * 2 ^ k := by rw [← pow_add, Nat.sub_add_cancel (by omega)]
    refine double_of_multiple (m := n * 2 ^ (j - k)) ?_
    rw [hj]
    push_cast
    rw [zpow_neg, zpow_natCast, hSum]
    field_simp

/-- Rounding does not go over a number that is a double itself. -/
theorem double_le_natCast {x : ℚ} {n : ℕ} (hNonneg : 0 ≤ x) (h : x ≤ n) (hn : n < 2 ^ 53) : double x ≤ n := by
  have hBit : lastBit x ≤ 0 := by
    obtain hZero | hPos := hNonneg.eq_or_lt
    · simp [lastBit, ← hZero]
    · have hSmall : x < 2 ^ (53 : ℤ) := lt_of_le_of_lt h (by exact_mod_cast hn)
      have hLog : Int.log 2 x < 53 :=
        (Int.lt_zpow_iff_log_lt (by decide) hPos).mp (by rw [Nat.cast_ofNat]; exact hSmall)
      rw [lastBit, abs_of_pos hPos]
      omega
  obtain ⟨k, hk⟩ := Int.exists_eq_neg_ofNat hBit
  have hPower : (0 : ℚ) < 2 ^ k := by positivity
  have hScaled : x / 2 ^ lastBit x ≤ ((n * 2 ^ k : ℕ) : ℤ) := by
    rw [hk, zpow_neg, zpow_natCast, div_inv_eq_mul]
    push_cast
    exact mul_le_mul_of_nonneg_right h hPower.le
  have hRound := roundEven_mono hScaled
  rw [roundEven_intCast] at hRound
  have hRound : (roundEven (x / 2 ^ lastBit x) : ℚ) ≤ n * 2 ^ k := by exact_mod_cast hRound
  have hBack : (2 : ℚ) ^ lastBit x = (2 ^ k)⁻¹ := by rw [hk, zpow_neg, zpow_natCast]
  rw [double, hBack, ← div_eq_mul_inv, div_le_iff₀ hPower]
  rwa [hBack] at hRound

theorem double_natCast {n : ℕ} (h : n < 2 ^ 53) : double n = n := by
  simpa using double_dyadic (k := 0) h (by decide)

end General
