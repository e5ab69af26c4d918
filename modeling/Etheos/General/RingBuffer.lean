import Mathlib.Data.Nat.Bitwise
import Mathlib.Algebra.Group.Nat.Defs
import Mathlib.Tactic.Common

/-! Ring buffers over a power of two of cells. A position is advanced before it
is used, so that the cell behind `gpos` is the oldest one. -/
namespace General

/-- Positions are kept inside by a mask of all ones. -/
structure RingBuffer (α : Type*) where
  cells : List α
  gpos : Nat
  ppos : Nat
  used : Nat
  deriving Repr, DecidableEq

namespace RingBuffer

variable {α : Type*}

def size (r : RingBuffer α) : Nat := r.cells.length

def mask (r : RingBuffer α) : Nat := r.size - 1

def free (r : RingBuffer α) : Nat := r.size - r.used

/-- Store the values behind `ppos`, one after the other. -/
def fill (mask : Nat) (cells : List α) (ppos : Nat) : List α → List α × Nat
  | [] => (cells, ppos)
  | x :: xs =>
      let ppos := (ppos + 1) &&& mask
      fill mask (cells.set ppos x) ppos xs

/-- Copy values from behind `gpos`, one after the other. -/
def drain [Inhabited α] (mask : Nat) (cells : List α) (gpos : Nat) : Nat → List α × Nat
  | 0 => ([], gpos)
  | n + 1 =>
      let gpos := (gpos + 1) &&& mask
      let (xs, last) := drain mask cells gpos n
      (cells.getD gpos default :: xs, last)

def put (r : RingBuffer α) (xs : List α) : RingBuffer α :=
  let (cells, ppos) := fill r.mask r.cells r.ppos xs
  { r with cells := cells, ppos := ppos, used := r.used + xs.length }

/-- Write the values from a place on; what goes over the end is lost. -/
def overwrite (cells : List α) (place : Nat) : List α → List α
  | [] => cells
  | x :: xs => overwrite (cells.set place x) (place + 1) xs

/-- Store the values behind `ppos` without going round. -/
def extend (r : RingBuffer α) (xs : List α) : RingBuffer α :=
  { r with
    cells := overwrite r.cells (r.ppos + 1) xs
    ppos := r.ppos + xs.length
    used := r.used + xs.length }

/-- Take out at most as many values as there are. -/
def take [Inhabited α] (r : RingBuffer α) (length : Nat) : List α × RingBuffer α :=
  let length := min length r.used
  let (xs, gpos) := drain r.mask r.cells r.gpos length
  (xs, { r with gpos := gpos, used := r.used - length })

/-- The `n` cells behind `gpos`. -/
def window [Inhabited α] (cells : List α) (gpos n : Nat) : List α :=
  (List.range n).map fun i => cells.getD ((gpos + i + 1) % cells.length) default

/-- The values in the buffer, oldest first. -/
def contents [Inhabited α] (r : RingBuffer α) : List α := window r.cells r.gpos r.used

/-- The put position follows the get position by the number of used cells. -/
structure WF (r : RingBuffer α) : Prop where
  powerOfTwo : ∃ k, r.size = 2 ^ k
  used_le : r.used ≤ r.size
  gpos_lt : r.gpos < r.size
  ppos_eq : r.ppos = (r.gpos + r.used) % r.size

theorem WF.and_mask {r : RingBuffer α} (h : r.WF) (n : Nat) : n &&& r.mask = n % r.size := by
  obtain ⟨k, hk⟩ := h.powerOfTwo
  rw [mask, hk, Nat.and_two_pow_sub_one_eq_mod]

theorem WF.size_pos {r : RingBuffer α} (h : r.WF) : 0 < r.size := by
  have := h.gpos_lt
  omega

/-- Before the end of the cells there is no difference between the two ways to
store values. -/
theorem fill_eq_overwrite {mask : Nat} (cells : List α) (hMask : ∀ n, n &&& mask = n % cells.length)
    (xs : List α) (ppos : Nat) (h : ppos + xs.length < cells.length) :
    fill mask cells ppos xs = (overwrite cells (ppos + 1) xs, ppos + xs.length) := by
  induction xs generalizing cells ppos with
  | nil => rfl
  | cons x xs ih =>
      rw [List.length_cons] at h
      have hNext : (ppos + 1) &&& mask = ppos + 1 := by
        rw [hMask, Nat.mod_eq_of_lt (by omega)]
      rw [fill, hNext, ih (cells.set (ppos + 1) x) (by simpa using hMask) (ppos + 1) (by simp; omega),
        overwrite, List.length_cons]
      congr 1
      omega

theorem WF.extend_eq_put {r : RingBuffer α} (h : r.WF) {xs : List α} (hFits : r.ppos + xs.length < r.size) :
    r.extend xs = r.put xs := by
  unfold RingBuffer.extend RingBuffer.put
  rw [fill_eq_overwrite r.cells h.and_mask xs r.ppos hFits]

theorem WF.put_ppos {r : RingBuffer α} (h : r.WF) {xs : List α} (hFits : r.ppos + xs.length < r.size) :
    (r.put xs).ppos = r.ppos + xs.length := by
  rw [← h.extend_eq_put hFits]
  rfl

section Window

variable [Inhabited α]

@[simp] theorem window_length (cells : List α) (gpos n : Nat) :
    (window cells gpos n).length = n := by simp [window]

@[simp] theorem window_zero (cells : List α) (gpos : Nat) : window cells gpos 0 = [] := rfl

/-- Only the place of a position in the ring matters. -/
theorem window_mod (cells : List α) (gpos n : Nat) :
    window cells (gpos % cells.length) n = window cells gpos n := by
  apply List.map_congr_left
  intro i _
  rw [Nat.add_assoc, Nat.mod_add_mod, ← Nat.add_assoc]

theorem window_add (cells : List α) (gpos m n : Nat) :
    window cells gpos (m + n) = window cells gpos m ++ window cells (gpos + m) n := by
  simp only [window, List.range_add, List.map_append, List.map_map]
  congr 1
  apply List.map_congr_left
  intro i _
  simp only [Function.comp_apply, Nat.add_assoc]

theorem window_one (cells : List α) (gpos : Nat) :
    window cells gpos 1 = [cells.getD ((gpos + 1) % cells.length) default] := by
  simp [window]

/-- Storing behind a window that leaves a cell free adds to it. -/
theorem window_set {cells : List α} {gpos n : Nat} (h : n < cells.length) (x : α) :
    window (cells.set ((gpos + n + 1) % cells.length) x) gpos (n + 1) =
      window cells gpos n ++ [x] := by
  have hPlace : (gpos + n + 1) % cells.length < cells.length := Nat.mod_lt _ (by omega)
  have hOther (i : Nat) (hi : i < n) :
      (gpos + i + 1) % cells.length ≠ (gpos + n + 1) % cells.length := by
    intro hEq
    have hDvd : cells.length ∣ (gpos + n + 1) - (gpos + i + 1) :=
      Nat.dvd_of_mod_eq_zero (Nat.sub_mod_eq_zero_of_mod_eq hEq.symm)
    have := Nat.le_of_dvd (by omega) hDvd
    omega
  rw [window_add, window_one]
  simp only [window, List.length_set]
  congr 1
  · apply List.map_congr_left
    intro i hi
    have hSet := List.getElem?_set_ne (l := cells) (a := x)
      (Ne.symm (hOther i (List.mem_range.mp hi)))
    simp only [List.getD, hSet]
  · simp [List.getD, hPlace]

theorem drain_eq {mask : Nat} (cells : List α) (hMask : ∀ n, n &&& mask = n % cells.length)
    (n gpos : Nat) :
    drain mask cells (gpos % cells.length) n =
      (window cells gpos n, (gpos + n) % cells.length) := by
  induction n generalizing gpos with
  | zero => rfl
  | succ n ih =>
      have hNext : (gpos % cells.length + 1) &&& mask = (gpos + 1) % cells.length := by
        rw [hMask, Nat.mod_add_mod]
      rw [Nat.add_comm n 1, window_add, window_one]
      rw [Nat.add_comm 1 n, drain, hNext, ih (gpos + 1)]
      simp only [List.cons_append, List.nil_append]
      congr 2
      omega

theorem fill_eq {mask : Nat} (cells : List α) (hMask : ∀ n, n &&& mask = n % cells.length)
    (xs : List α) (gpos n : Nat) (h : n + xs.length ≤ cells.length) :
    ∃ cells', fill mask cells ((gpos + n) % cells.length) xs =
        (cells', (gpos + (n + xs.length)) % cells.length) ∧
      cells'.length = cells.length ∧
      window cells' gpos (n + xs.length) = window cells gpos n ++ xs := by
  induction xs generalizing cells n with
  | nil => exact ⟨cells, rfl, rfl, by simp⟩
  | cons x xs ih =>
      simp only [List.length_cons] at h
      have hNext : ((gpos + n) % cells.length + 1) &&& mask = (gpos + n + 1) % cells.length := by
        rw [hMask, Nat.mod_add_mod]
      obtain ⟨cells', hFill, hLength, hWindow⟩ :=
        ih (cells.set ((gpos + n + 1) % cells.length) x) (by simpa using hMask) (n + 1)
          (by simp; omega)
      rw [List.length_set] at hFill hLength
      refine ⟨cells', ?_, hLength, ?_⟩
      · rw [fill, hNext, List.length_cons, Nat.add_comm xs.length 1, ← Nat.add_assoc n 1]
        exact hFill
      · rw [List.length_cons, Nat.add_comm xs.length 1, ← Nat.add_assoc n 1, hWindow,
          window_set (by omega), List.append_assoc, List.singleton_append]

end Window

variable [Inhabited α] {r : RingBuffer α}

@[simp] theorem contents_length (r : RingBuffer α) : r.contents.length = r.used := by
  simp [contents]

theorem contents_of_unused (h : r.used = 0) : r.contents = [] :=
  List.length_eq_zero_iff.mp ((contents_length r).trans h)

/-- Storing values that fit keeps the buffer well formed and queues them. -/
theorem WF.put (h : r.WF) {xs : List α} (hFits : xs.length ≤ r.free) :
    (r.put xs).WF ∧ (r.put xs).size = r.size ∧ (r.put xs).contents = r.contents ++ xs := by
  have hUsed := h.used_le
  obtain ⟨cells', hFill, hLength, hWindow⟩ :=
    fill_eq r.cells h.and_mask xs r.gpos r.used
      (by simp only [free, size] at hFits hUsed ⊢; omega)
  have hPut : r.put xs =
      ⟨cells', r.gpos, (r.gpos + (r.used + xs.length)) % r.size, r.used + xs.length⟩ := by
    have hStart : r.ppos = (r.gpos + r.used) % r.cells.length := h.ppos_eq
    simp only [RingBuffer.put, hStart, hFill]
    rfl
  have hSize : (r.put xs).size = r.size := by rw [hPut]; exact hLength
  refine ⟨⟨?_, ?_, ?_, ?_⟩, hSize, ?_⟩
  · rw [hSize]
    exact h.powerOfTwo
  · rw [hSize, hPut]
    simp only [free] at hFits ⊢
    omega
  · rw [hSize, hPut]
    exact h.gpos_lt
  · rw [hSize, hPut]
  · rw [hPut]
    exact hWindow

/-- Taking values out returns the oldest ones in order. -/
theorem WF.take (h : r.WF) (length : Nat) :
    (r.take length).1 = r.contents.take length ∧ (r.take length).2.WF ∧
      (r.take length).2.size = r.size ∧
      (r.take length).2.contents = r.contents.drop length := by
  have hGpos : r.gpos % r.cells.length = r.gpos := Nat.mod_eq_of_lt h.gpos_lt
  have hDrain := drain_eq r.cells h.and_mask (min length r.used) r.gpos
  rw [hGpos] at hDrain
  have hTake : r.take length =
      (window r.cells r.gpos (min length r.used),
        ⟨r.cells, (r.gpos + min length r.used) % r.size, r.ppos,
          r.used - min length r.used⟩) := by
    simp only [RingBuffer.take, hDrain]
    rfl
  have hSplit : r.contents = window r.cells r.gpos (min length r.used) ++
      window r.cells (r.gpos + min length r.used) (r.used - min length r.used) := by
    rw [← window_add, Nat.add_sub_cancel' (Nat.min_le_right _ _)]
    rfl
  have hBound : (window r.cells r.gpos (min length r.used)).length = min length r.used :=
    window_length _ _ _
  have hUsed := h.used_le
  rw [hTake]
  refine ⟨?_, ⟨h.powerOfTwo, ?_, ?_, ?_⟩, rfl, ?_⟩
  · have hMin : r.contents.take length = r.contents.take (min length r.used) := by
      rw [← contents_length r, List.take_eq_take_min]
    rw [hMin, hSplit, List.take_left' hBound]
  · exact (Nat.sub_le _ _).trans hUsed
  · exact Nat.mod_lt _ h.size_pos
  · change r.ppos = ((r.gpos + min length r.used) % r.size + (r.used - min length r.used)) % r.size
    rw [Nat.mod_add_mod, h.ppos_eq]
    congr 1
    omega
  · have hMin : r.contents.drop length = r.contents.drop (min length r.used) := by
      by_cases hLength : length ≤ r.used
      · rw [Nat.min_eq_left hLength]
      · rw [Nat.min_eq_right (by omega), List.drop_eq_nil_of_le (by simp; omega),
          List.drop_eq_nil_of_le (by simp)]
    rw [hMin, hSplit, List.drop_left' hBound]
    exact window_mod r.cells _ _

/-- Values that are read without being taken out. -/
theorem WF.drain_contents (h : r.WF) {n : Nat} (hn : n ≤ r.used) :
    (drain r.mask r.cells r.gpos n).1 = r.contents.take n ∧
      (drain r.mask r.cells r.gpos n).2 = (r.gpos + n) &&& r.mask := by
  have hTake := (h.take n).1
  unfold RingBuffer.take at hTake
  rw [Nat.min_eq_left hn] at hTake
  refine ⟨hTake, ?_⟩
  have hGpos : r.gpos % r.cells.length = r.gpos := Nat.mod_eq_of_lt h.gpos_lt
  have hDrain := drain_eq r.cells h.and_mask n r.gpos
  rw [hGpos] at hDrain
  rw [hDrain, h.and_mask]
  rfl

/-- A buffer with nothing in it. -/
def empty (size : Nat) : RingBuffer α := ⟨List.replicate size default, 0, 0, 0⟩

theorem empty_wf (k : Nat) : (empty (2 ^ k) : RingBuffer α).WF := by
  have hSize : (empty (2 ^ k) : RingBuffer α).size = 2 ^ k := List.length_replicate
  refine ⟨⟨k, hSize⟩, Nat.zero_le _, ?_, ?_⟩
  · rw [hSize]
    exact Nat.two_pow_pos k
  · simp [empty]

@[simp] theorem empty_contents (size : Nat) : (empty size : RingBuffer α).contents = [] := rfl

/-- What has entered the buffer has left it or is still there, in the same order. -/
structure Follows (r : RingBuffer α) (entered left : List α) : Prop where
  wf : r.WF
  order : left ++ r.contents = entered

section Follows

variable {entered left : List α}

theorem Follows.isPrefix (h : r.Follows entered left) : left <+: entered := ⟨_, h.order⟩

theorem Follows.contents_eq (h : r.Follows entered left) : r.contents = entered.drop left.length := by
  rw [← h.order, List.drop_left]

theorem Follows.used_eq (h : r.Follows entered left) : r.used = entered.length - left.length := by
  rw [← contents_length, h.contents_eq, List.length_drop]

theorem Follows.put (h : r.Follows entered left) {xs : List α} (hFits : xs.length ≤ r.free) :
    (r.put xs).Follows (entered ++ xs) left := by
  obtain ⟨hWF, -, hContents⟩ := h.wf.put hFits
  refine ⟨hWF, ?_⟩
  rw [hContents, ← List.append_assoc, h.order]

theorem Follows.take (h : r.Follows entered left) (length : Nat) :
    (r.take length).2.Follows entered (left ++ (r.take length).1) := by
  obtain ⟨hTaken, hWF, -, hRest⟩ := h.wf.take length
  refine ⟨hWF, ?_⟩
  rw [hTaken, hRest, List.append_assoc, List.take_append_drop, h.order]

theorem empty_follows (k : Nat) : (empty (2 ^ k) : RingBuffer α).Follows [] [] := ⟨empty_wf k, rfl⟩

end Follows

end RingBuffer

end General
