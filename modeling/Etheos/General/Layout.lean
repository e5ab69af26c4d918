import Mathlib.Data.List.GetD
import Mathlib.Data.List.Pairwise
import Mathlib.Tactic.Common

/-! Blocks of a fixed size, with values at their places. -/
namespace General

variable {β : Type*}

/-- Where a value is in a block. -/
structure Slot where
  offset : Nat
  width : Nat
  deriving DecidableEq

namespace Slot

def covers (slot : Slot) (i : Nat) : Bool := slot.offset ≤ i ∧ i < slot.offset + slot.width

def Apart (slot other : Slot) : Prop :=
  slot.offset + slot.width ≤ other.offset ∨ other.offset + other.width ≤ slot.offset

instance : DecidableRel Apart := fun _ _ => inferInstanceAs (Decidable (_ ∨ _))

theorem Apart.not_covers {slot other : Slot} (h : slot.Apart other) {i : Nat} (hi : other.covers i) :
    slot.covers i = false := by
  unfold Apart at h
  simp only [covers, decide_eq_true_eq, decide_eq_false_iff_not] at hi ⊢
  omega

end Slot

/-- What no slot covers can be anything. -/
def block (size : Nat) (entries : List (Slot × List β)) (filler : Nat → β) : List β :=
  (List.range size).map fun i =>
    match entries.find? (·.1.covers i) with
    | some entry => entry.2.getD (i - entry.1.offset) (filler i)
    | none => filler i

@[simp] theorem block_length (size : Nat) (entries : List (Slot × List β)) (filler : Nat → β) :
    (block size entries filler).length = size := by
  simp [block]

theorem find_covers {entries : List (Slot × List β)} (hApart : (entries.map Prod.fst).Pairwise Slot.Apart)
    {entry : Slot × List β} (hEntry : entry ∈ entries) {i : Nat} (hi : entry.1.covers i) :
    entries.find? (·.1.covers i) = some entry := by
  induction entries with
  | nil => exact absurd hEntry List.not_mem_nil
  | cons first rest ih =>
      obtain ⟨hFirst, hRest⟩ := List.pairwise_cons.mp hApart
      obtain rfl | hLater := List.mem_cons.mp hEntry
      · exact List.find?_cons_of_pos hi
      · have hOther : first.1.covers i = false := (hFirst entry.1 (List.mem_map_of_mem hLater)).not_covers hi
        rw [List.find?_cons_of_neg (by simp [hOther])]
        exact ih hRest hLater

/-- Where no slot is in the way of another one, each value is found at its place. -/
theorem block_getD {size : Nat} {entries : List (Slot × List β)} {filler : Nat → β}
    (hApart : (entries.map Prod.fst).Pairwise Slot.Apart) {slot : Slot} {bytes : List β}
    (hEntry : (slot, bytes) ∈ entries) (hSize : slot.offset + slot.width ≤ size) (hBytes : slot.width ≤ bytes.length)
    {k : Nat} (hk : k < slot.width) (d : β) :
    (block size entries filler).getD (slot.offset + k) d = bytes.getD k d := by
  have hCovers : slot.covers (slot.offset + k) := by
    simp only [Slot.covers, decide_eq_true_eq]
    omega
  have hFind : entries.find? (·.1.covers (slot.offset + k)) = some (slot, bytes) :=
    find_covers hApart hEntry hCovers
  have hIn : slot.offset + k < size := by omega
  rw [block, List.getD_eq_getElem _ _ (by simpa using hIn), List.getElem_map, List.getElem_range, hFind]
  dsimp only
  rw [Nat.add_sub_cancel_left, List.getD_eq_getElem _ _ (by omega), List.getD_eq_getElem _ _ (by omega)]

end General
