import Mathlib.Data.List.Nodup
import Mathlib.Tactic.Common

/-! What comes into a diamond and what goes out of it when it moves on by one. A point is given by
how far it lies ahead of the new middle and how far beside it. -/
namespace General

section Diamond

variable {ahead beside radius : Int}

/-- The edge in front. -/
theorem enters_diamond_iff :
    (ahead.natAbs + beside.natAbs ≤ radius ∧ radius < (ahead + 1).natAbs + beside.natAbs) ↔
      (-radius ≤ beside ∧ beside ≤ radius) ∧ ahead = radius - beside.natAbs := by
  omega

/-- The edge behind. -/
theorem leaves_diamond_iff :
    ((ahead + 1).natAbs + beside.natAbs ≤ radius ∧ radius < ahead.natAbs + beside.natAbs) ↔
      (-radius ≤ beside ∧ beside ≤ radius) ∧ ahead = beside.natAbs - radius - 1 := by
  omega

end Diamond

/-- The numbers from `-radius` to `radius`. -/
def offsets (radius : Int) : List Int := (List.range (2 * radius + 1).toNat).map fun k : Nat => (k : Int) - radius

theorem mem_offsets {radius i : Int} : i ∈ offsets radius ↔ -radius ≤ i ∧ i ≤ radius := by
  unfold offsets
  rw [List.mem_map]
  constructor
  · rintro ⟨k, hk, rfl⟩
    have hRange := List.mem_range.mp hk
    omega
  · intro hRange
    exact ⟨(i + radius).toNat, List.mem_range.mpr (by omega), by omega⟩

theorem offsets_nodup (radius : Int) : (offsets radius).Nodup :=
  List.nodup_range.map fun a b h => Int.ofNat.inj ((Int.sub_left_inj radius).mp h)

/-- Of the entries of a list, one at most has the property. -/
theorem filter_of_unique {ι : Type*} [DecidableEq ι] {entries : List ι} (hNodup : entries.Nodup) {p : ι → Prop}
    [DecidablePred p] {q : Prop} [Decidable q] {k : ι} (h : ∀ i ∈ entries, p i ↔ i = k ∧ q) (hk : q → k ∈ entries) :
    entries.filter (fun i => p i) = if q then [k] else [] := by
  have hSame : entries.filter (fun i => p i) = entries.filter fun i => i = k ∧ q :=
    List.filter_congr fun i hi => decide_eq_decide.mpr (h i hi)
  rw [hSame]
  split
  case isTrue hq =>
    simp only [hq, and_true]
    rw [List.filter_eq, List.count_eq_one_of_mem hNodup (hk hq)]
    rfl
  case isFalse hq =>
    simp [hq]

theorem flatMap_ite {α : Type*} (p : α → Prop) [DecidablePred p] (entries : List α) :
    (entries.flatMap fun a => if p a then [a] else []) = entries.filter fun a => p a := by
  induction entries with
  | nil => rfl
  | cons a rest ih =>
      rw [List.flatMap_cons, ih, List.filter_cons]
      by_cases h : p a
      · simp [h]
      · simp [h]

end General
