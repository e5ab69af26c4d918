import Mathlib.Data.List.Chain
import Mathlib.Tactic.Common

/-! A loop that goes over a list and erases entries on its way. When it has erased one it still
steps on, and so it passes the next one by. -/
namespace General

variable {α : Type*} (dead : α → Bool) (found : α → Bool)

/-- What the loop leaves. -/
def sweep : List α → List α
  | [] => []
  | [x] => if dead x then [] else [x]
  | x :: passed :: rest => if dead x then passed :: sweep rest else x :: sweep (passed :: rest)

/-- What the loop looks at and does not erase. -/
def looked : List α → List α
  | [] => []
  | [x] => if dead x then [] else [x]
  | x :: passed :: rest => if dead x then looked rest else x :: looked (passed :: rest)

variable {dead found} {x y : α} {rest entries : List α}

@[simp] theorem sweep_dead (h : dead x) : sweep dead (x :: y :: rest) = y :: sweep dead rest := by
  simp [sweep, h]

@[simp] theorem looked_dead (h : dead x) : looked dead (x :: y :: rest) = looked dead rest := by
  simp [looked, h]

@[simp] theorem sweep_alive (h : dead x = false) : sweep dead (x :: rest) = x :: sweep dead rest := by
  cases rest <;> simp [sweep, h]

@[simp] theorem looked_alive (h : dead x = false) : looked dead (x :: rest) = x :: looked dead rest := by
  cases rest <;> simp [looked, h]

/-- The loop leaves the entries of the list in their order. -/
theorem sweep_sublist : (sweep dead entries).Sublist entries := by
  induction entries using sweep.induct dead with
  | case1 => simp [sweep]
  | case2 x h => simp [sweep, h]
  | case3 x h => simp [sweep, h]
  | case4 x y rest h ih =>
      rw [sweep_dead h]
      exact (ih.cons_cons y).cons x
  | case5 x y rest h ih =>
      rw [sweep_alive (by simpa using h)]
      exact ih.cons_cons x

theorem filter_sweep : (sweep dead entries).filter (!dead ·) = entries.filter (!dead ·) := by
  induction entries using sweep.induct dead with
  | case1 => simp [sweep]
  | case2 x h => simp [sweep, h]
  | case3 x h => simp [sweep, h]
  | case4 x y rest h ih =>
      rw [sweep_dead h]
      simp [List.filter_cons, ih, h]
  | case5 x y rest h ih =>
      have h : dead x = false := by simpa using h
      rw [sweep_alive h]
      simp [List.filter_cons, ih, h]

theorem sweep_eq_filter_iff : sweep dead entries = entries.filter (!dead ·) ↔ ∀ z ∈ sweep dead entries, dead z = false := by
  rw [← filter_sweep, eq_comm, List.filter_eq_self]
  simp

theorem looked_sublist : (looked dead entries).Sublist entries := by
  induction entries using looked.induct dead with
  | case1 => simp [looked]
  | case2 x h => simp [looked, h]
  | case3 x h => simp [looked, h]
  | case4 x y rest h ih =>
      rw [looked_dead h]
      exact (ih.cons y).cons x
  | case5 x y rest h ih =>
      rw [looked_alive (by simpa using h)]
      exact ih.cons_cons x

variable (dead found) in
/-- The entry behind one that is erased need not be erased, and is not one to be found. -/
def Apart (x y : α) : Prop := dead x → dead y = false ∧ found y = false

theorem isChain_alive (h : dead x = false) : (x :: rest).IsChain (Apart dead found) ↔ rest.IsChain (Apart dead found) := by
  cases rest <;> simp [Apart, h]

variable (dead) in
theorem exists_looked_of_unfound (h : ∀ z ∈ entries, found z = false) :
    (∃ z ∈ looked dead entries, found z) ↔ ∃ z ∈ entries, found z := by
  constructor
  · rintro ⟨z, hMem, hFound⟩
    exact ⟨z, looked_sublist.subset hMem, hFound⟩
  · rintro ⟨z, hMem, hFound⟩
    simp [h z hMem] at hFound

/-- The loop erases all that it should, and finds the one entry that is to be found, exactly when
none of these comes right behind an entry that is erased. -/
theorem sweep_exact_iff (hAlive : ∀ z, found z → dead z = false)
    (hOne : entries.Pairwise fun x y => found x → found y = false) :
    ((∀ z ∈ sweep dead entries, dead z = false) ∧
      ((∃ z ∈ looked dead entries, found z) ↔ ∃ z ∈ entries, found z)) ↔
    entries.IsChain (Apart dead found) := by
  induction entries using sweep.induct dead with
  | case1 => simp [sweep, looked]
  | case2 x h =>
      have hUnfound : found x = false := by
        by_contra hFound
        simp [hAlive x (by simpa using hFound)] at h
      simp [sweep, looked, h, hUnfound]
  | case3 x h => simp [sweep, looked, h]
  | case4 x y rest h ih =>
      obtain ⟨hFirst, hRest⟩ := List.pairwise_cons.mp hOne
      obtain ⟨hSecond, hRest⟩ := List.pairwise_cons.mp hRest
      have hUnfound : found x = false := by
        by_contra hFound
        simp [hAlive x (by simpa using hFound)] at h
      rw [sweep_dead h, looked_dead h, List.isChain_cons_cons]
      by_cases hDead : dead y
      · simp [Apart, h, hDead]
      have hDead : dead y = false := by simpa using hDead
      rw [isChain_alive hDead, ← ih hRest]
      by_cases hFound : found y
      · have hNone := exists_looked_of_unfound dead fun z hMem => hSecond z hMem hFound
        have hOthers : ¬∃ z ∈ rest, found z := by
          rintro ⟨z, hMem, hz⟩
          simp [hSecond z hMem hFound] at hz
        simp [Apart, h, hFound, hNone, hOthers]
      · simp [Apart, h, hDead, hFound, hUnfound]
  | case5 x y rest h ih =>
      have hFirst := (List.pairwise_cons.mp hOne).1
      have h : dead x = false := by simpa using h
      rw [sweep_alive h, looked_alive h, isChain_alive h, ← ih (List.pairwise_cons.mp hOne).2]
      by_cases hFound : found x
      · have hNone := exists_looked_of_unfound dead fun z hMem => hFirst z hMem hFound
        simp [h, hFound, hNone]
      · simp [h, hFound]

end General
