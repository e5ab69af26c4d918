import Mathlib.Data.List.Basic
import Mathlib.Tactic.Common

/-! Logs in which the last note is the first one. -/
namespace General

variable {α : Type*}

/-- The note is the last of those of its owner, and `earlier` is what had been noted before it. -/
def Latest (mine : α → Prop) (note : α) (earlier log : List α) : Prop :=
  ∃ later, log = later ++ note :: earlier ∧ ∀ other ∈ later, ¬mine other

/-- Each note has the property, which may tell of all that had been noted before it. -/
def Each (P : α → List α → Prop) : List α → Prop
  | [] => True
  | note :: earlier => P note earlier ∧ Each P earlier

variable {mine : α → Prop} {P : α → List α → Prop} {note other : α} {earlier log : List α}

theorem Latest.head : Latest mine note log (note :: log) :=
  ⟨[], rfl, by simp⟩

theorem Latest.cons (h : Latest mine note earlier log) (hOther : ¬mine other) :
    Latest mine note earlier (other :: log) := by
  obtain ⟨later, rfl, hLater⟩ := h
  exact ⟨other :: later, rfl, by simpa [hOther] using hLater⟩

/-- After another note of the owner, what was the latest one is not the latest any more. -/
theorem Latest.place {first : α} {between : List α} (h : Latest mine note earlier log) (hMine : mine first) :
    ¬Latest mine other earlier (between ++ first :: log) := by
  obtain ⟨later, rfl, -⟩ := h
  rintro ⟨more, hSplit, hMore⟩
  have hRight : (between ++ first :: later) ++ note :: earlier = more ++ other :: earlier := by simpa using hSplit
  have hLength : (between ++ first :: later).length = more.length := by
    have := congrArg List.length hRight
    simp only [List.length_append, List.length_cons] at this ⊢
    omega
  obtain ⟨rfl, -⟩ := List.append_inj hRight hLength
  exact hMore first (by simp) hMine

theorem each_iff : Each P log ↔ ∀ later note earlier, log = later ++ note :: earlier → P note earlier := by
  induction log with
  | nil => simp [Each]
  | cons first log ih =>
      constructor
      · rintro ⟨hFirst, hRest⟩ later note earlier hSplit
        cases later with
        | nil =>
            obtain ⟨rfl, rfl⟩ := List.cons.inj hSplit
            exact hFirst
        | cons _ later =>
            obtain ⟨-, rfl⟩ := List.cons.inj hSplit
            exact ih.mp hRest later note earlier rfl
      · intro h
        refine ⟨h [] first log rfl, ih.mpr fun later note earlier hSplit => ?_⟩
        exact h (first :: later) note earlier (congrArg (first :: ·) hSplit)

/-- Of the entries of an owner there is a last one. -/
theorem exists_last {mine : α → Prop} {entries : List α} (h : ∃ entry ∈ entries, mine entry) :
    ∃ before entry after, entries = before ++ entry :: after ∧ mine entry ∧ ∀ later ∈ after, ¬mine later := by
  induction entries with
  | nil => simp at h
  | cons first rest ih =>
      by_cases hRest : ∃ entry ∈ rest, mine entry
      · obtain ⟨before, entry, after, rfl, hMine, hAfter⟩ := ih hRest
        exact ⟨first :: before, entry, after, rfl, hMine, hAfter⟩
      · push Not at hRest
        obtain ⟨entry, hEntry, hMine⟩ := h
        obtain rfl | hLater := List.mem_cons.mp hEntry
        · exact ⟨[], entry, rest, rfl, hMine, hRest⟩
        · exact absurd hMine (hRest entry hLater)

end General
