import Etheos.Character.Codecs

/-! The size of a paperdoll. The loop that reads one leaves when the last slot is written, and an
invalid number there takes it past that test. -/
namespace Etheos.Codecs

open Characters QuestStates

/-- The part is a number outside of the range of ids. -/
def Discarded (part : Text) : Prop := ∃ id, Variants.toInt part = some id ∧ (id < 0 ∨ 65535 < id)

/-- What the parts have for a slot. -/
def slotOf (parts : List Text) (slot : Nat) : Int :=
  match parts[slot]?.bind Variants.toInt with
  | some id => if id < 0 ∨ 65535 < id then 0 else id
  | none => 0

/-- Every slot has its part, and nothing behind the slots is written. -/
def FillsSlots (serialized : Text) : Prop :=
  dollUnserialize serialized = some fun slot : Fin 15 => slotOf (serialized.splitOn ',') slot

/-- The slots from `i` on are not written yet. -/
def Blank (doll : Doll) (i : Nat) : Prop := ∀ slot : Fin 15, i ≤ slot → doll slot = 0

/-- What the loop makes of the doll if it starts at slot `i`. -/
def filled (doll : Doll) (i : Nat) (parts : List Text) : Doll :=
  fun slot => if slot < i then doll slot else slotOf parts (slot - i)

section Slots

variable {part : Text} {rest : List Text} {id : Int}

theorem slotOf_succ (slot : Nat) : slotOf (part :: rest) (slot + 1) = slotOf rest slot := rfl

theorem slotOf_discarded (hId : Variants.toInt part = some id) (hBad : id < 0 ∨ 65535 < id) :
    slotOf (part :: rest) 0 = 0 := by
  simp [slotOf, hId, hBad]

theorem slotOf_valid (hId : Variants.toInt part = some id) (hGood : ¬(id < 0 ∨ 65535 < id)) :
    slotOf (part :: rest) 0 = id := by
  simp [slotOf, hId, hGood]

theorem Blank.filled_nil {doll : Doll} {i : Nat} (h : Blank doll i) : filled doll i [] = doll := by
  funext slot
  rw [filled]
  split
  · rfl
  · exact (h slot (by omega)).symm

/-- One more slot is settled. -/
theorem filled_cons {doll next : Doll} {i : Nat} (hBefore : ∀ slot : Fin 15, slot < i → next slot = doll slot)
    (hHere : ∀ slot : Fin 15, slot.val = i → next slot = slotOf (part :: rest) 0) :
    filled next (i + 1) rest = filled doll i (part :: rest) := by
  funext slot
  rw [filled, filled]
  rcases Nat.lt_trichotomy slot i with hLess | hSame | hMore
  · rw [if_pos hLess, if_pos (by omega), hBefore slot hLess]
  · rw [if_pos (by omega), if_neg (by omega), hHere slot hSame, hSame, Nat.sub_self]
  · obtain ⟨k, hk⟩ : ∃ k, slot.val - i = k + 1 := ⟨slot.val - i - 1, by omega⟩
    rw [if_neg (by omega), if_neg (by omega), hk, slotOf_succ]
    congr 1
    omega

end Slots

/-- A doll that is read has what the parts say. -/
theorem readDoll_filled {doll read : Doll} {i : Nat} {parts : List Text} (hBlank : Blank doll i)
    (h : readDoll doll i parts = some read) : read = filled doll i parts := by
  induction parts generalizing doll i with
  | nil =>
      rw [hBlank.filled_nil]
      exact (Option.some.inj h).symm
  | cons part rest ih =>
      rw [readDoll] at h
      obtain ⟨id, hId, hRest⟩ := Option.bind_eq_some_iff.mp h
      by_cases hBad : id < 0 ∨ 65535 < id
      · rw [if_pos hBad] at hRest
        rw [ih (fun slot hSlot => hBlank slot (by omega)) hRest]
        apply filled_cons (fun _ _ => rfl)
        intro slot hSame
        rw [slotOf_discarded hId hBad, hBlank slot (by omega)]
      · rw [if_neg hBad] at hRest
        by_cases hi : i < 15
        · rw [dif_pos hi] at hRest
          have hNext : filled (Function.update doll ⟨i, hi⟩ id) (i + 1) rest = filled doll i (part :: rest) := by
            apply filled_cons
            · intro slot hLess
              exact Function.update_of_ne (Fin.ne_of_val_ne (by dsimp only; omega)) _ _
            · intro slot hSame
              rw [slotOf_valid hId hBad, show slot = ⟨i, hi⟩ from Fin.ext hSame, Function.update_self]
          rw [← hNext]
          by_cases hLast : i + 1 = 15
          · rw [if_pos hLast] at hRest
            funext slot
            rw [← Option.some.inj hRest, filled, if_pos (by omega)]
          · rw [if_neg hLast] at hRest
            apply ih _ hRest
            intro slot hSlot
            rw [Function.update_of_ne (Fin.ne_of_val_ne (by dsimp only; omega))]
            exact hBlank slot (by omega)
        · simp [hi] at hRest

/-- Behind the last slot only invalid numbers are not written. -/
theorem readDoll_behind {doll : Doll} {i : Nat} (hi : 15 ≤ i) (parts : List Text) :
    (readDoll doll i parts).isSome ↔ ∀ part ∈ parts, Discarded part := by
  induction parts generalizing i with
  | nil => simp [readDoll]
  | cons part rest ih =>
      rw [List.forall_mem_cons, readDoll, Discarded]
      cases hId : Variants.toInt part with
      | none => simp
      | some id =>
          by_cases hBad : id < 0 ∨ 65535 < id
          · simpa [hBad] using ih (by omega)
          · simp [hBad, Nat.not_lt.mpr hi]

theorem readDoll_isSome (doll : Doll) {i n : Nat} (hRoom : i + n = 14) (parts : List Text) :
    (readDoll doll i parts).isSome ↔
      (∀ part ∈ parts.take (n + 1), (Variants.toInt part).isSome) ∧
        ∀ part, parts[n]? = some part → Discarded part → ∀ later ∈ parts.drop (n + 1), Discarded later := by
  induction parts generalizing doll i n with
  | nil => simp [readDoll]
  | cons part rest ih =>
      rw [List.take_succ_cons, List.forall_mem_cons, List.drop_succ_cons, readDoll]
      cases hId : Variants.toInt part with
      | none => simp
      | some id =>
          simp only [Option.bind_eq_bind, Option.bind_some, Option.isSome_some, true_and]
          cases n with
          | zero =>
              have hFifteen : i + 1 = 15 := by omega
              by_cases hBad : id < 0 ∨ 65535 < id
              · have hDiscarded : Discarded part := ⟨id, hId, hBad⟩
                simp [hBad, readDoll_behind hFifteen.ge, hDiscarded]
              · have hKept : ¬Discarded part := by simpa [Discarded, hId] using hBad
                simp [hBad, hFifteen, hKept, show i < 15 by omega]
          | succ n =>
              have hNext (next : Doll) := ih next (show i + 1 + n = 14 by omega)
              by_cases hBad : id < 0 ∨ 65535 < id
              · simpa [hBad] using hNext doll
              · simpa [hBad, show i < 15 by omega, show i ≠ 14 by omega] using hNext _

/-- The doll is read as it should be exactly if the numbers of its slots are an `int` each, and no
number behind an invalid one in the last slot would be written. -/
theorem fillsSlots_iff (serialized : Text) :
    FillsSlots serialized ↔
      (∀ part ∈ (serialized.splitOn ',').take 15, (Variants.toInt part).isSome) ∧
        ∀ part, (serialized.splitOn ',')[14]? = some part → Discarded part →
          ∀ later ∈ (serialized.splitOn ',').drop 15, Discarded later := by
  rw [← readDoll_isSome (fun _ => 0) (show 0 + 14 = 14 from rfl), FillsSlots, dollUnserialize]
  constructor
  · intro h
    rw [h, Option.isSome_some]
  · intro h
    obtain ⟨read, hRead⟩ := Option.isSome_iff_exists.mp h
    rw [hRead, readDoll_filled (fun _ _ => rfl) hRead]
    exact congrArg some (funext fun slot => if_neg (Nat.not_lt_zero slot))

/-- The last slot has an id that is too large, and the empty text behind the last separator reads as
zero. -/
theorem fillsSlots_counterexample : ¬∀ serialized : Text, FillsSlots serialized := by
  intro h
  have hNone : dollUnserialize "0,0,0,0,0,0,0,0,0,0,0,0,0,0,65536,".toList = none := by decide +kernel
  have hSome := h "0,0,0,0,0,0,0,0,0,0,0,0,0,0,65536,".toList
  rw [FillsSlots, hNone] at hSome
  cases hSome

end Etheos.Codecs
