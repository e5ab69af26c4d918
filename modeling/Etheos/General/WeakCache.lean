import Mathlib.Logic.Function.Basic
import Mathlib.Tactic.Common

/-! A cache that finds objects by their keys and does not keep them alive. Each owner holds one
object, and an object that goes takes the entry under its key with it, whatever that is by then. -/
namespace General

/-- For each owner the key of its object, and for each key the owner of the object that is found. -/
@[ext] structure WeakCache (Owner Key : Type*) where
  held : Owner → Option Key
  cached : Key → Option Owner

namespace WeakCache

section Notions

variable {Owner Key : Type*} (cache : WeakCache Owner Key) (latest : Key → Option Owner)

/-- The object that was last made for a key is found there, as long as its owner holds it. -/
def Reachable : Prop := ∀ k o, latest k = some o → cache.held o = some k → cache.cached k = some o

/-- What is found is the object that was last made. -/
structure Inv : Prop where
  reachable : cache.Reachable latest
  latest : ∀ k o, cache.cached k = some o → latest k = some o
  held : ∀ k o, cache.cached k = some o → cache.held o = some k

/-- The owner holds an object under whose key another one is found. -/
def Orphans (o : Owner) : Prop := ∃ k ∈ cache.held o, ∃ other ∈ cache.cached k, other ≠ o

variable {cache}

theorem not_held_of_cached {o other : Owner} {k : Key} (hSafe : ¬cache.Orphans o) (hOther : other ≠ o)
    (hCached : cache.cached k = some other) : cache.held o ≠ some k :=
  fun hHeld => hSafe ⟨k, hHeld, other, hCached, hOther⟩

end Notions

variable {Owner Key : Type*} [DecidableEq Owner] [DecidableEq Key] (cache : WeakCache Owner Key)

/-- The entry under the key of the object of an owner goes. -/
def erase (key : Option Key) (cached : Key → Option Owner) : Key → Option Owner :=
  fun k => if key = some k then none else cached k

/-- A new object is put into the cache, and takes the place of the one that its owner had. -/
def begin (o : Owner) (k : Key) : WeakCache Owner Key where
  held := Function.update cache.held o (some k)
  cached := erase (cache.held o) (Function.update cache.cached k (some o))

def drop (o : Owner) : WeakCache Owner Key where
  held := Function.update cache.held o none
  cached := erase (cache.held o) cache.cached

instance (o : Owner) : Decidable (cache.Orphans o) := by
  unfold Orphans
  infer_instance

variable {cache} {latest : Key → Option Owner} {o other : Owner} {k k' : Key}

theorem cached_drop : (cache.drop o).cached k = some other ↔ cache.held o ≠ some k ∧ cache.cached k = some other := by
  simp [drop, erase]

theorem cached_begin : (cache.begin o k').cached k = some other ↔
    cache.held o ≠ some k ∧ if k = k' then o = other else cache.cached k = some other := by
  by_cases h : k = k'
  · simp [begin, erase, h]
  · simp [begin, erase, h]

theorem held_drop : (cache.drop o).held other = some k ↔ other ≠ o ∧ cache.held other = some k := by
  by_cases h : other = o
  · simp [drop, h]
  · simp [drop, h]

theorem held_begin : (cache.begin o k').held other = some k ↔
    if other = o then k' = k else cache.held other = some k := by
  by_cases h : other = o
  · simp [begin, h]
  · simp [begin, h]

theorem Inv.drop (h : cache.Inv latest) (hSafe : ¬cache.Orphans o) : (cache.drop o).Inv latest where
  reachable := by
    intro k other hLatest hHeld
    obtain ⟨hOther, hHeld⟩ := held_drop.mp hHeld
    have hCached := h.reachable k other hLatest hHeld
    exact cached_drop.mpr ⟨not_held_of_cached hSafe hOther hCached, hCached⟩
  latest := by
    intro k other hCached
    exact h.latest k other (cached_drop.mp hCached).2
  held := by
    intro k other hCached
    obtain ⟨hNot, hCached⟩ := cached_drop.mp hCached
    have hHeld := h.held k other hCached
    refine held_drop.mpr ⟨?_, hHeld⟩
    rintro rfl
    exact hNot hHeld

theorem Inv.begin (h : cache.Inv latest) (hSafe : ¬cache.Orphans o) (hNew : cache.held o ≠ some k') :
    (cache.begin o k').Inv (Function.update latest k' (some o)) where
  reachable := by
    intro k other hLatest hHeld
    rw [cached_begin]
    rw [held_begin] at hHeld
    by_cases hKey : k = k'
    · subst hKey
      rw [if_pos rfl]
      exact ⟨hNew, by simpa using hLatest⟩
    · rw [if_neg hKey]
      rw [Function.update_of_ne hKey] at hLatest
      split at hHeld
      · exact absurd hHeld.symm hKey
      case isFalse hOther =>
        have hCached := h.reachable k other hLatest hHeld
        exact ⟨not_held_of_cached hSafe hOther hCached, hCached⟩
  latest := by
    intro k other hCached
    obtain ⟨-, hCached⟩ := cached_begin.mp hCached
    split at hCached
    case isTrue hKey => simp [hKey, hCached]
    case isFalse hKey =>
      rw [Function.update_of_ne hKey]
      exact h.latest k other hCached
  held := by
    intro k other hCached
    obtain ⟨hNot, hCached⟩ := cached_begin.mp hCached
    rw [held_begin]
    split at hCached
    case isTrue hKey => simp [hKey, hCached]
    case isFalse hKey =>
      have hHeld := h.held k other hCached
      have hOther : other ≠ o := by
        rintro rfl
        exact hNot hHeld
      rwa [if_neg hOther]

/-- The object that is found in place of one that goes cannot be found any more. -/
theorem Orphans.drop (h : cache.Inv latest) (hOrphans : cache.Orphans o) : ¬(cache.drop o).Reachable latest := by
  obtain ⟨k, hHeld, other, hCached, hOther⟩ := hOrphans
  intro hReachable
  have hFound := hReachable k other (h.latest k other hCached) (held_drop.mpr ⟨hOther, h.held k other hCached⟩)
  exact (cached_drop.mp hFound).1 hHeld

theorem Orphans.begin (h : cache.Inv latest) (hOrphans : cache.Orphans o) (hNew : cache.held o ≠ some k') :
    ¬(cache.begin o k').Reachable (Function.update latest k' (some o)) := by
  obtain ⟨k, hHeld, other, hCached, hOther⟩ := hOrphans
  have hKey : k ≠ k' := by
    rintro rfl
    exact hNew hHeld
  have hLatest : Function.update latest k' (some o) k = some other := by
    rw [Function.update_of_ne hKey]
    exact h.latest k other hCached
  intro hReachable
  have hFound := hReachable k other hLatest (held_begin.mpr (by simpa [hOther] using h.held k other hCached))
  exact (cached_begin.mp hFound).1 hHeld

/-- Who makes an object for the same key again takes the entry of the new one away. -/
theorem not_reachable_again (hAgain : cache.held o = some k) :
    ¬(cache.begin o k).Reachable (Function.update latest k (some o)) := by
  intro hReachable
  have hFound := hReachable k o (by simp) (held_begin.mpr (by simp))
  exact (cached_begin.mp hFound).1 hAgain

end WeakCache

end General
