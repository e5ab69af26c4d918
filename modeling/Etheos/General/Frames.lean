import Mathlib.Algebra.Group.Nat.Defs
import Mathlib.Tactic.Common

/-! Streams of frames. A frame starts with two elements that determine how many
elements follow. -/
namespace General.Frames

variable {α : Type*} (size : α → α → Nat)

/-- The complete frames at the start of a stream, and what is left behind
them. -/
def split (stream : List α) : List (List α) × List α :=
  match stream with
  | a :: b :: rest =>
      if size a b ≤ rest.length then
        let (frames, tail) := split (rest.drop (size a b))
        (rest.take (size a b) :: frames, tail)
      else ([], a :: b :: rest)
  | short => ([], short)
termination_by stream.length
decreasing_by simp only [List.length_drop, List.length_cons]; omega

/-- Some frames have been cut off the start of a stream. -/
inductive Cut : List α → List (List α) → List α → Prop
  | nil (stream : List α) : Cut stream [] stream
  | cons {a b : α} {body stream rest : List α} {frames : List (List α)}
      (hSize : size a b = body.length) (h : Cut stream frames rest) :
      Cut (a :: b :: (body ++ stream)) (body :: frames) rest

variable {size}

theorem split_short {stream : List α} (h : stream.length < 2) : split size stream = ([], stream) := by
  match stream, h with
  | [], _ => rw [split]; simp
  | [a], _ => rw [split]; simp

theorem split_incomplete {a b : α} {rest : List α} (h : rest.length < size a b) :
    split size (a :: b :: rest) = ([], a :: b :: rest) := by
  rw [split, if_neg (by omega)]

theorem split_frame {a b : α} {body : List α} (h : size a b = body.length) (rest : List α) :
    split size (a :: b :: (body ++ rest)) =
      (body :: (split size rest).1, (split size rest).2) := by
  rw [split, if_pos (by simp; omega), h, List.take_left, List.drop_left]

/-- The frames of a stream begin with those that have been cut off. -/
theorem Cut.split_eq {stream rest : List α} {frames : List (List α)}
    (h : Cut size stream frames rest) :
    split size stream = (frames ++ (split size rest).1, (split size rest).2) := by
  induction h with
  | nil stream => rfl
  | cons hSize _ ih => rw [split_frame hSize, ih, List.cons_append]

/-- What arrives later is left behind the frames cut off before. -/
theorem Cut.append {stream rest : List α} {frames : List (List α)}
    (h : Cut size stream frames rest) (more : List α) :
    Cut size (stream ++ more) frames (rest ++ more) := by
  induction h with
  | nil stream => exact .nil _
  | cons hSize _ ih =>
      simp only [List.cons_append, List.append_assoc]
      exact .cons hSize ih

/-- A frame that is complete can be cut off as well. -/
theorem Cut.frame {stream rest body : List α} {frames : List (List α)} {a b : α}
    (h : Cut size stream frames (a :: b :: (body ++ rest))) (hSize : size a b = body.length) :
    Cut size stream (frames ++ [body]) rest := by
  generalize hLeft : a :: b :: (body ++ rest) = left at h
  induction h with
  | nil stream =>
      rw [← hLeft]
      exact .cons hSize (.nil rest)
  | cons hFirst _ ih => exact .cons hFirst (ih hLeft)

end General.Frames
