import Mathlib.Data.List.DropRight
import Mathlib.Data.List.TakeWhile
import Mathlib.Algebra.Group.Nat.Defs
import Mathlib.Tactic.Common

/-! Reversal of the maximal runs of a list. A run is a maximal block of
consecutive elements that satisfy a predicate; the remaining elements keep
their places. -/
namespace General.Runs

variable {α : Type*} (p : α → Bool)

/-- Scan a list while the current run is kept backwards in `pending`. -/
def flush (pending : List α) : List α → List α
  | [] => pending
  | x :: rest => if p x then flush (x :: pending) rest else pending ++ x :: flush [] rest

/-- Reverse every maximal run of elements satisfying `p`. -/
def reverseRuns (l : List α) : List α := flush p [] l

theorem flush_run {run : List α} (h : ∀ x ∈ run, p x = true) (pending rest : List α) :
    flush p pending (run ++ rest) = flush p (run.reverse ++ pending) rest := by
  induction run generalizing pending with
  | nil => simp
  | cons x run ih =>
      have hx : p x = true := h x (by simp)
      have hRun : ∀ y ∈ run, p y = true := fun y hy => h y (by simp [hy])
      simp [flush, hx, ih hRun]

@[simp] theorem reverseRuns_nil : reverseRuns p [] = [] := rfl

/-- A list that is one run is simply reversed. -/
theorem reverseRuns_run {run : List α} (h : ∀ x ∈ run, p x = true) :
    reverseRuns p run = run.reverse := by
  simpa [reverseRuns, flush] using flush_run p h [] []

/-- The first element outside `p` ends the first run, and the scan starts
afresh behind it. -/
theorem reverseRuns_break {run : List α} (h : ∀ x ∈ run, p x = true)
    {x : α} (hx : p x = false) (rest : List α) :
    reverseRuns p (run ++ x :: rest) = run.reverse ++ x :: reverseRuns p rest := by
  simp [reverseRuns, flush_run p h, flush, hx]

/-- Every list is one run, or a run followed by an element outside `p`. -/
theorem run_or_break (l : List α) :
    (∀ x ∈ l, p x = true) ∨
      ∃ run x rest, l = run ++ x :: rest ∧ (∀ y ∈ run, p y = true) ∧ p x = false := by
  induction l with
  | nil => exact Or.inl (by simp)
  | cons a l ih =>
      cases ha : p a with
      | false => exact Or.inr ⟨[], a, l, rfl, by simp, ha⟩
      | true =>
          rcases ih with hAll | ⟨run, x, rest, rfl, hRun, hx⟩
          · exact Or.inl (by simpa [ha] using hAll)
          · exact Or.inr ⟨a :: run, x, rest, rfl, by simpa [ha] using hRun, hx⟩

/-- Induction along the runs of a list. -/
theorem runInduction {motive : List α → Prop}
    (run : ∀ l, (∀ x ∈ l, p x = true) → motive l)
    (breaks : ∀ l x rest, (∀ y ∈ l, p y = true) → p x = false → motive rest →
      motive (l ++ x :: rest)) (l : List α) : motive l := by
  induction hLength : l.length using Nat.strong_induction_on generalizing l with
  | _ n ih =>
      rcases run_or_break p l with hAll | ⟨first, x, rest, rfl, hFirst, hx⟩
      · exact run l hAll
      · refine breaks first x rest hFirst hx (ih rest.length ?_ rest rfl)
        simp only [List.length_append, List.length_cons] at hLength
        omega

/-- Reversal permutes the list; in particular it keeps the length. -/
theorem reverseRuns_perm (l : List α) : (reverseRuns p l).Perm l := by
  induction l using runInduction p with
  | run l h => simp [reverseRuns_run p h]
  | breaks l x rest h hx ih =>
      rw [reverseRuns_break p h hx]
      exact (l.reverse_perm).append (ih.cons x)

@[simp] theorem reverseRuns_length (l : List α) : (reverseRuns p l).length = l.length :=
  (reverseRuns_perm p l).length_eq

/-- Reversing every run twice gives the list back. -/
theorem reverseRuns_involutive : Function.Involutive (reverseRuns p) := by
  intro l
  induction l using runInduction p with
  | run l h =>
      rw [reverseRuns_run p h, reverseRuns_run p (by simpa using h), List.reverse_reverse]
  | breaks l x rest h hx ih =>
      rw [reverseRuns_break p h hx, reverseRuns_break p (by simpa using h) hx, ih,
        List.reverse_reverse]

/-- An element outside `p` separates the runs before it from those behind. -/
theorem reverseRuns_append_break (before : List α) {x : α} (hx : p x = false)
    (rest : List α) :
    reverseRuns p (before ++ x :: rest) = reverseRuns p before ++ x :: reverseRuns p rest := by
  induction before using runInduction p with
  | run l h => rw [reverseRuns_break p h hx, reverseRuns_run p h]
  | breaks l y tail h hy ih =>
      rw [List.append_assoc, List.cons_append, reverseRuns_break p h hy, ih,
        reverseRuns_break p h hy, List.append_assoc, List.cons_append]

/-- When the last element of the first list or the first of the second is
outside `p`, no run crosses between them. -/
theorem reverseRuns_append {before rest : List α} {x y : α}
    (h : ¬(p x = true ∧ p y = true)) :
    reverseRuns p (before ++ [x] ++ y :: rest) =
      reverseRuns p (before ++ [x]) ++ reverseRuns p (y :: rest) := by
  cases hy : p y with
  | false =>
      have hRest := reverseRuns_append_break p [] hy rest
      rw [reverseRuns_append_break p _ hy]
      simp at hRest
      rw [hRest]
  | true =>
      have hx : p x = false := by simpa [hy] using h
      have hBefore := reverseRuns_append_break p before hx []
      have hBoth := reverseRuns_append_break p before hx (y :: rest)
      simp only [List.append_assoc, List.singleton_append] at hBoth ⊢
      rw [hBefore, hBoth]
      simp

/-- The runs of a list that begins with the run `first` and then leaves it. -/
theorem reverseRuns_takeWhile (l : List α) :
    reverseRuns p l = (l.takeWhile p).reverse ++ reverseRuns p (l.dropWhile p) := by
  have hTake : ∀ x ∈ l.takeWhile p, p x = true := fun x hx => List.mem_takeWhile_imp hx
  cases hDrop : l.dropWhile p with
  | nil =>
      have hAll : l.takeWhile p = l := by
        simpa [hDrop] using List.takeWhile_append_dropWhile (p := p) (l := l)
      rw [reverseRuns_nil, List.append_nil, hAll, reverseRuns_run p (by rwa [hAll] at hTake)]
  | cons x rest =>
      have hx : p x = false := by
        have := List.head_dropWhile_not p (l := l) (by simp [hDrop])
        simpa [hDrop] using this
      have hSplit : l = l.takeWhile p ++ x :: rest := by
        rw [← hDrop, List.takeWhile_append_dropWhile]
      have hFresh := reverseRuns_append_break p [] hx rest
      simp at hFresh
      conv_lhs => rw [hSplit]
      rw [reverseRuns_break p hTake hx, hFresh]

/-- The first run of a list decides about the elements in front of its end. -/
theorem reverseRuns_take_iff (front l : List α) (h : front.length ≤ (l.takeWhile p).length) :
    (reverseRuns p l).take front.length = front ↔ front <+: (l.takeWhile p).reverse := by
  rw [reverseRuns_takeWhile, List.take_append_of_le_length (by simpa using h),
    List.prefix_iff_eq_take, eq_comm]

/-- Two leading elements keep their places exactly when the run that reaches
into them begins in the way it ends. -/
theorem reverseRuns_take_two (x y : α) (rest : List α) :
    (reverseRuns p (x :: y :: rest)).take 2 = [x, y] ↔
      [x, y].rtakeWhile p <+: ([x, y].rtakeWhile p ++ rest.takeWhile p).reverse := by
  cases hy : p y with
  | false =>
      have hReach : [x, y].rtakeWhile p = [] := by simp [List.rtakeWhile, hy]
      have hFirst : reverseRuns p [x] = [x] := (reverseRuns_perm p [x]).eq_singleton
      have hSplit := reverseRuns_append_break p [x] hy rest
      rw [hFirst, List.singleton_append] at hSplit
      simp [hReach, hSplit]
  | true =>
      cases hx : p x with
      | false =>
          have hReach : [x, y].rtakeWhile p = [y] := by simp [List.rtakeWhile, hx, hy]
          have hRun : (y :: rest).takeWhile p = [y] ++ rest.takeWhile p := by simp [hy]
          have hSplit := reverseRuns_break p (List.forall_mem_nil _) hx (y :: rest)
          have hTake := reverseRuns_take_iff p [y] (y :: rest) (by simp [hRun])
          rw [List.nil_append, List.reverse_nil, List.nil_append] at hSplit
          rw [hRun] at hTake
          rw [hReach, hSplit, ← hTake]
          simp
      | true =>
          have hReach : [x, y].rtakeWhile p = [x, y] := by simp [List.rtakeWhile, hx, hy]
          have hRun : (x :: y :: rest).takeWhile p = [x, y] ++ rest.takeWhile p := by simp [hx, hy]
          have hTake := reverseRuns_take_iff p [x, y] (x :: y :: rest) (by simp [hRun])
          rw [hRun] at hTake
          rw [hReach, ← hTake]
          rfl

end General.Runs
