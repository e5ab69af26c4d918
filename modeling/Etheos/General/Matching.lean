import Mathlib.Logic.Function.Basic
import Mathlib.Tactic.Common

/-! Matchings: who is matched with somebody is matched by that one in turn. -/
namespace General

variable {α : Type*} {m : α → Option α} {a b : α}

/-- A matching, in which nobody is matched with itself. -/
def Matching (m : α → Option α) : Prop := ∀ a b, m a = some b → a ≠ b ∧ m b = some a

variable [DecidableEq α]

namespace Matching

/-- Two that are single are matched. -/
theorem join (h : Matching m) (ha : m a = none) (hb : m b = none) (hNe : a ≠ b) :
    Matching (Function.update (Function.update m a (some b)) b (some a)) := by
  intro c d hMatched
  by_cases hc : c = b
  · subst hc
    rw [Function.update_self] at hMatched
    obtain rfl := Option.some.inj hMatched
    exact ⟨hNe.symm, by rw [Function.update_of_ne hNe, Function.update_self]⟩
  · rw [Function.update_of_ne hc] at hMatched
    by_cases hca : c = a
    · subst hca
      rw [Function.update_self] at hMatched
      obtain rfl := Option.some.inj hMatched
      exact ⟨hNe, Function.update_self ..⟩
    · rw [Function.update_of_ne hca] at hMatched
      obtain ⟨hDifferent, hBack⟩ := h c d hMatched
      refine ⟨hDifferent, ?_⟩
      have hda : d ≠ a := by
        rintro rfl
        rw [ha] at hBack
        cases hBack
      have hdb : d ≠ b := by
        rintro rfl
        rw [hb] at hBack
        cases hBack
      rw [Function.update_of_ne hdb, Function.update_of_ne hda, hBack]

/-- Both of a pair become single. -/
theorem part (h : Matching m) (ha : m a = some b) :
    Matching (Function.update (Function.update m b none) a none) := by
  intro c d hMatched
  by_cases hca : c = a
  · subst hca
    rw [Function.update_self] at hMatched
    cases hMatched
  · rw [Function.update_of_ne hca] at hMatched
    by_cases hcb : c = b
    · subst hcb
      rw [Function.update_self] at hMatched
      cases hMatched
    · rw [Function.update_of_ne hcb] at hMatched
      obtain ⟨hDifferent, hBack⟩ := h c d hMatched
      refine ⟨hDifferent, ?_⟩
      have hda : d ≠ a := by
        rintro rfl
        rw [ha] at hBack
        exact hcb (Option.some.inj hBack).symm
      have hdb : d ≠ b := by
        rintro rfl
        obtain ⟨-, hOther⟩ := h a d ha
        rw [hOther] at hBack
        exact hca (Option.some.inj hBack).symm
      rw [Function.update_of_ne hda, Function.update_of_ne hdb, hBack]

/-- One cannot be matched with another, or become single, alone. -/
theorem not_update (h : Matching m) {other : Option α} (hOther : other ≠ m a) :
    ¬Matching (Function.update m a other) := by
  intro hNew
  cases ha : m a with
  | some b =>
      obtain ⟨hDifferent, hBack⟩ := h a b ha
      have hb := (hNew b a (by rw [Function.update_of_ne hDifferent.symm, hBack])).2
      rw [Function.update_self] at hb
      exact hOther (hb.trans ha.symm)
  | none =>
      obtain ⟨b, rfl⟩ := Option.ne_none_iff_exists'.mp (ha ▸ hOther)
      obtain ⟨hDifferent, hBack⟩ := hNew a b (Function.update_self ..)
      rw [Function.update_of_ne hDifferent.symm] at hBack
      rw [(h b a hBack).2] at ha
      cases ha

/-- Who is matched with a third one cannot be matched again. -/
theorem not_join (h : Matching m) {c : α} (ha : m a = some c) (hc : c ≠ b) (hNe : a ≠ b) :
    ¬Matching (Function.update (Function.update m a (some b)) b (some a)) := by
  intro hNew
  obtain ⟨hDifferent, hBack⟩ := h a c ha
  have hLater := (hNew c a (by rw [Function.update_of_ne hc, Function.update_of_ne hDifferent.symm, hBack])).2
  rw [Function.update_of_ne hNe, Function.update_self] at hLater
  exact hc (Option.some.inj hLater).symm

end Matching

end General
