import Mathlib.Data.List.Nodup
import Mathlib.Algebra.Group.Nat.Defs
import Mathlib.Tactic.Common

/-! Writing a list of values to given places of a list, and reading the values
at given places back. -/
namespace General.Scatter

variable {α β : Type*}

/-- Write the values one after the other to the places. -/
def scatter (base : List α) : List Nat → List α → List α
  | place :: places, value :: values => scatter (base.set place value) places values
  | _, _ => base

/-- Read the places one after the other; a place outside reads `outside`. -/
def gather (outside : α) (base : List α) (places : List Nat) : List α :=
  places.map (base.getD · outside)

@[simp] theorem scatter_length (places : List Nat) (values base : List α) :
    (scatter base places values).length = base.length := by
  induction places generalizing base values with
  | nil => simp [scatter]
  | cons place places ih =>
      cases values with
      | nil => simp [scatter]
      | cons value values => simp [scatter, ih]

@[simp] theorem gather_length (outside : α) (base : List α) (places : List Nat) :
    (gather outside base places).length = places.length := by
  simp [gather]

/-- A place that is not written keeps its value. -/
theorem scatter_getD_of_not_mem (outside : α) (places : List Nat) (values base : List α)
    (i : Nat) (h : i ∉ places) :
    (scatter base places values).getD i outside = base.getD i outside := by
  induction places generalizing base values with
  | nil => simp [scatter]
  | cons place places ih =>
      cases values with
      | nil => simp [scatter]
      | cons value values =>
          simp only [List.mem_cons, not_or] at h
          rw [scatter, ih _ _ h.2]
          simp [List.getD, List.getElem?_set_ne (Ne.symm h.1)]

/-- Values written to distinct places inside the list can be read back. -/
theorem gather_scatter (outside : α) {places : List Nat} {values base : List α}
    (hDistinct : places.Nodup) (hInside : ∀ i ∈ places, i < base.length)
    (hLength : values.length = places.length) :
    gather outside (scatter base places values) places = values := by
  induction places generalizing base values with
  | nil =>
      have : values = [] := List.length_eq_zero_iff.mp hLength
      simp [gather, this]
  | cons place places ih =>
      cases values with
      | nil => simp at hLength
      | cons value values =>
          obtain ⟨hFresh, hRest⟩ := List.nodup_cons.mp hDistinct
          have hPlace : place < base.length := hInside place (by simp)
          have hTail : gather outside (scatter (base.set place value) places values) places =
              values :=
            ih hRest (fun i hi => by simpa using hInside i (by simp [hi])) (by simpa using hLength)
          simp only [gather, scatter, List.map_cons]
          rw [scatter_getD_of_not_mem outside _ _ _ _ hFresh]
          congr 1
          simp [List.getD, hPlace]

/-- Reading commutes with a change of every element. -/
theorem gather_map (f : α → β) (outside : α) (base : List α) (places : List Nat) :
    gather (f outside) (base.map f) places = (gather outside base places).map f := by
  simp only [gather, List.map_map]
  apply List.map_congr_left
  intro i _
  simp [List.getD, Option.getD_map]

/-- Writing behind a prefix leaves the prefix alone. -/
theorem scatter_append (front base : List α) (places : List Nat) (values : List α) :
    scatter (front ++ base) (places.map (· + front.length)) values =
      front ++ scatter base places values := by
  induction places generalizing base values with
  | nil => simp [scatter]
  | cons place places ih =>
      cases values with
      | nil => simp [scatter]
      | cons value values =>
          simp only [List.map_cons, scatter]
          rw [List.set_append_right _ _ (by omega), Nat.add_sub_cancel, ih]

end General.Scatter
