import Mathlib.Data.List.Basic
import Mathlib.Tactic.Common

/-! Texts in segments with a separator between them, which are read one element at a time. -/
namespace General.Segments

variable {α : Type*} [BEq α] (sep : α)

/-- The segments that are complete, and the one that is not. -/
def feed (s : List (List α) × List α) (c : α) : List (List α) × List α :=
  if c == sep then (s.1 ++ [s.2], []) else (s.1, s.2 ++ [c])

def all (s : List (List α) × List α) : List (List α) := s.1 ++ [s.2]

variable {sep} {s : List (List α) × List α} {text more : List α}

theorem all_foldl_feed : all (text.foldl (feed sep) s) = s.1 ++ (text.splitOn sep).modifyHead (s.2 ++ ·) := by
  induction text generalizing s with
  | nil => simp [all]
  | cons c rest ih =>
      rw [List.foldl_cons, ih, List.splitOn_cons_eq_if_modifyHead, feed]
      split
      · obtain ⟨first, others, hSplit⟩ := List.exists_cons_of_ne_nil (List.splitOn_ne_nil sep rest)
        simp [hSplit]
      · obtain ⟨first, others, hSplit⟩ := List.exists_cons_of_ne_nil (List.splitOn_ne_nil sep rest)
        simp [hSplit]

theorem all_of_start : all (text.foldl (feed sep) ([], [])) = text.splitOn sep := by
  rw [all_foldl_feed]
  obtain ⟨first, others, hSplit⟩ := List.exists_cons_of_ne_nil (List.splitOn_ne_nil sep text)
  simp [hSplit]

/-- What comes later goes on with the segment that is not complete. -/
theorem splitOn_append : (text ++ more).splitOn sep =
    (text.foldl (feed sep) ([], [])).1 ++
      (more.splitOn sep).modifyHead ((text.foldl (feed sep) ([], [])).2 ++ ·) := by
  rw [← all_of_start, List.foldl_append, all_foldl_feed]

/-- Nothing of what comes later is to be seen when blank segments are left out. -/
def Unseen (blank : α → Bool) (unfinished : List α) (segments : List (List α)) : Prop :=
  (∀ segment ∈ segments, segment.all blank) ∧ (segments.head? = some [] ∨ unfinished.all blank)

theorem filter_append_iff {blank : α → Bool} :
    (text.splitOn sep).filter (!·.all blank) = ((text ++ more).splitOn sep).filter (!·.all blank) ↔
      Unseen blank (text.foldl (feed sep) ([], [])).2 (more.splitOn sep) := by
  rw [splitOn_append, ← all_of_start, all]
  generalize text.foldl (feed sep) ([], []) = s
  obtain ⟨first, others, hSplit⟩ := List.exists_cons_of_ne_nil (List.splitOn_ne_nil sep more)
  rw [hSplit, List.filter_append, List.filter_append, List.append_cancel_left_eq, Unseen]
  by_cases hBlank : s.2.all blank
  · have hJoin : (s.2 ++ first).all blank = first.all blank := by rw [List.all_append, hBlank, Bool.true_and]
    cases hFirst : first.all blank with
    | true =>
        simp [-List.all_eq_true, -List.all_append, hBlank, hJoin, hFirst]
        simp only [List.all_eq_true]
    | false => simp [-List.all_eq_true, -List.all_append, hBlank, hJoin, hFirst]
  · by_cases hFirst : first = []
    · simp [hBlank, hFirst]
    · simp [hBlank, hFirst]

/-- The separator is in no segment. -/
theorem not_mem_of_mem_splitOn [LawfulBEq α] {segment : List α} (h : segment ∈ text.splitOn sep) : sep ∉ segment := by
  induction text generalizing segment with
  | nil =>
      rw [List.splitOn_nil, List.mem_singleton] at h
      simp [h]
  | cons c rest ih =>
      rw [List.splitOn_cons_eq_if_modifyHead] at h
      split at h
      case isTrue =>
        rcases List.mem_cons.mp h with rfl | hLater
        · simp
        · exact ih hLater
      case isFalse hOther =>
        obtain ⟨first, others, hSplit⟩ := List.exists_cons_of_ne_nil (List.splitOn_ne_nil sep rest)
        rw [hSplit, List.modifyHead_cons] at h
        rw [hSplit] at ih
        rcases List.mem_cons.mp h with rfl | hLater
        · have hNe : sep ≠ c := fun hSame => hOther (by simp [hSame])
          simp [hNe, ih List.mem_cons_self]
        · exact ih (List.mem_cons_of_mem _ hLater)

omit [BEq α] in
theorem intercalate_append {front back : List (List α)} (hFront : front ≠ []) (hBack : back ≠ []) :
    [sep].intercalate (front ++ back) = [sep].intercalate front ++ sep :: [sep].intercalate back := by
  induction front with
  | nil => exact absurd rfl hFront
  | cons first others ih =>
      cases others with
      | nil =>
          rw [List.singleton_append, List.intercalate_cons_of_ne_nil hBack, List.intercalate_singleton,
            List.append_assoc, List.singleton_append]
      | cons second others =>
          have hOthers := ih (List.cons_ne_nil second others)
          rw [List.cons_append, List.cons_append, List.intercalate_cons_cons, ← List.cons_append, hOthers,
            List.intercalate_cons_cons, List.append_assoc, List.append_assoc, List.append_assoc]

end General.Segments
