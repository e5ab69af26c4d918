import Mathlib.Algebra.BigOperators.Ring.List
import Mathlib.Algebra.Order.BigOperators.Group.List
import Mathlib.Data.Rat.Floor
import Mathlib.Tactic.Linarith

/-! An amount that is shared out, where every part is rounded up. -/
namespace General

variable {α : Type*} (entries : List α) (part : α → ℚ)

/-- The parts as they are paid out. -/
def paidParts : ℤ := (entries.map fun a => ⌈part a⌉).sum

theorem paidParts_nil : paidParts [] part = 0 :=
  rfl

theorem paidParts_cons (a : α) : paidParts (a :: entries) part = ⌈part a⌉ + paidParts entries part :=
  rfl

theorem le_paidParts : (entries.map part).sum ≤ paidParts entries part := by
  induction entries with
  | nil => exact le_of_eq (by simp [paidParts])
  | cons a rest ih =>
      have hFirst := Int.le_ceil (part a)
      rw [paidParts_cons, List.map_cons, List.sum_cons]
      push_cast
      linarith

theorem paidParts_le : (paidParts entries part : ℚ) ≤ (entries.map part).sum + entries.length := by
  induction entries with
  | nil => exact le_of_eq (by simp [paidParts])
  | cons a rest ih =>
      have hFirst := Int.ceil_lt_add_one (part a)
      rw [paidParts_cons, List.map_cons, List.sum_cons, List.length_cons]
      push_cast
      linarith

/-- What is lost to the rounding is less than one for each part. -/
theorem paidParts_lt (hSome : entries ≠ []) :
    (paidParts entries part : ℚ) < (entries.map part).sum + entries.length := by
  cases entries with
  | nil => exact absurd rfl hSome
  | cons a rest =>
      have hFirst := Int.ceil_lt_add_one (part a)
      have hRest := paidParts_le rest part
      rw [paidParts_cons, List.map_cons, List.sum_cons, List.length_cons]
      push_cast
      linarith

/-- Parts in proportion to weights are all of the amount. -/
theorem sum_parts {weight : α → ℚ} {amount total : ℚ} (hTotal : (entries.map weight).sum = total)
    (hSome : total ≠ 0) :
    (entries.map fun a => amount * (weight a / total)).sum = amount := by
  rw [List.sum_map_mul_left]
  have hParts : (entries.map fun a => weight a / total).sum = 1 := by
    simp only [div_eq_mul_inv]
    rw [List.sum_map_mul_right, hTotal]
    exact mul_inv_cancel₀ hSome
  rw [hParts, mul_one]

section Multiples

variable {x : ℚ} {n : ℕ}

/-- If everybody of `n` gets `n` times the amount, it is paid in full. -/
theorem le_multiples (hx : 0 < x) (hn : 0 < n) : x ≤ n * ⌈x * n⌉ := by
  have hOne : (1 : ℚ) ≤ n := by exact_mod_cast hn
  have hCeil := Int.le_ceil (x * n)
  have hOnce : x * 1 ≤ x * n := mul_le_mul_of_nonneg_left hOne hx.le
  have hAll : 1 * (⌈x * n⌉ : ℚ) ≤ n * ⌈x * n⌉ :=
    mul_le_mul_of_nonneg_right hOne (by linarith)
  linarith

/-- It is paid more than once, unless there is only one to pay or a whole one is the least there is. -/
theorem multiples_lt_iff (hx : 0 < x) (hn : 0 < n) : n * (⌈x * n⌉ : ℚ) < x + n ↔ n = 1 ∨ x * n ≤ 1 := by
  have hPos : 0 < ⌈x * n⌉ := Int.ceil_pos.mpr (mul_pos hx (by exact_mod_cast hn))
  constructor
  · intro hBelow
    by_contra hBoth
    obtain ⟨hMore, hLarge⟩ := not_or.mp hBoth
    have hMore : (2 : ℚ) ≤ n := by exact_mod_cast (by omega : 2 ≤ n)
    have hMany : 1 < ⌈x * n⌉ := Int.lt_ceil.mpr (by simpa using hLarge)
    have hTwo : (2 : ℚ) ≤ ⌈x * n⌉ := by exact_mod_cast hMany
    have hCeil := Int.le_ceil (x * n)
    have hOver : 2 * ((⌈x * n⌉ : ℚ) - 1) ≤ n * ((⌈x * n⌉ : ℚ) - 1) :=
      mul_le_mul_of_nonneg_right hMore (by linarith)
    have hTwice : x * 2 ≤ x * n := mul_le_mul_of_nonneg_left hMore hx.le
    linarith
  · intro hFew
    have hAbove := Int.ceil_lt_add_one (x * n)
    obtain hAlone | hSmall := hFew
    · subst hAlone
      push_cast at hAbove ⊢
      linarith
    · have hOne : ⌈x * n⌉ = 1 := le_antisymm (Int.ceil_le.mpr (by exact_mod_cast hSmall)) hPos
      rw [hOne]
      push_cast
      linarith

end Multiples

end General
