import Etheos.World.Dump

/-! The entries of a chest put in again, one after the other. An entry of a user merges with
one of the same item that is in front of it, and finds no room once the slots of spawned
items begin. -/
namespace Etheos.WorldDump

open Characters General General.Entries Stores Stores.MapChest

/-- The chest as it is loaded. -/
def emptied (chest : MapChest) : MapChest := { chest with items := [] }

def restoreOne (chest : MapChest) (it : MapChestItem) : MapChest :=
  (chest.addItem (toShort it.id) (toInt it.amount) (toInt it.slot)).1

def replay (chest : MapChest) (entries : List MapChestItem) : MapChest := entries.foldl restoreOne chest

/-- The fields fit their types, and the amount is one that the chest takes. -/
structure Storable (maxchest : Int) (it : MapChestItem) : Prop where
  id : toShort it.id = it.id
  slot : toInt it.slot = it.slot
  pos : 0 < it.amount
  le : it.amount ≤ maxchest

structure Bounded (chest : MapChest) : Prop where
  length : (chest.items.length : Int) ≤ chest.chestslots % 2 ^ 64
  storable : ∀ it ∈ chest.items, Storable chest.maxchest it

/-- An entry of a user is the first one of its item, and there is room for it beside the
slots of spawned items. -/
def Addable (chest : MapChest) (it : MapChestItem) : Prop :=
  it.slot = 0 → (∀ a ∈ chest.items, a.id ≠ it.id) ∧ chest.HasUserRoom

def userCount (entries : List MapChestItem) : Nat := (entries.filter (·.slot = 0)).length

/-- The entries can all be added to what is there. -/
structure AllAddable (chest : MapChest) (entries : List MapChestItem) : Prop where
  fresh : ∀ a ∈ chest.items, ∀ b ∈ entries, b.slot = 0 → a.id ≠ b.id
  apart : entries.Pairwise fun a b => b.slot = 0 → a.id ≠ b.id
  room : ∀ k < userCount entries, toInt (chest.userItems + k + chest.slots) < chest.chestslots

section One

variable {chest : MapChest} {it : MapChestItem}

theorem userItems_eq (chest : MapChest) : chest.userItems = userCount chest.items := rfl

theorem entry_eq (h : Storable chest.maxchest it) :
    (⟨.of (toShort it.id) (toInt it.amount), toInt it.slot⟩ : MapChestItem) = it := by
  have hItem : CharacterItem.of (toShort it.id) (toInt it.amount) = it.toCharacterItem := by
    rw [CharacterItem.of, CharacterItem.mk.injEq]
    exact ⟨h.id, by rw [it.isInt.toInt_eq, it.isInt.toInt_eq]⟩
  rw [hItem, h.slot]

/-- An entry that can be added comes in front of the others or behind them. -/
theorem restoreOne_addable (hFits : Storable chest.maxchest it)
    (hLength : (chest.items.length : Int) < chest.chestslots % 2 ^ 64) (h : Addable chest it) :
    ∃ items, restoreOne chest it = { chest with items := items } ∧ items.Perm (it :: chest.items) := by
  have hAmount : toInt it.amount = it.amount := it.isInt.toInt_eq
  have hPos : 0 < toInt it.amount := by
    rw [hAmount]
    exact hFits.pos
  have hRoom : chest.HasRoom (toInt it.amount) := ⟨hLength, hAmount.trans_le hFits.le⟩
  by_cases hSlot : it.slot = 0
  · obtain ⟨hFresh, hUser⟩ := h hSlot
    have hMissing : chest.items.find? (·.id = toShort it.id) = none := by
      refine List.find?_eq_none.mpr fun a ha hSame => hFresh a ha ?_
      exact (of_decide_eq_true hSame).trans hFits.id
    have hZero : toInt it.slot = 0 := hFits.slot.trans hSlot
    refine ⟨chest.items ++ [it], ?_, List.perm_append_singleton it chest.items⟩
    have hEntry := entry_eq hFits
    rw [hZero] at hEntry
    rw [restoreOne, hZero, addItem_user hPos hMissing hRoom hUser, hEntry]
  · have hSome : toInt it.slot ≠ 0 := fun hZero => hSlot (hFits.slot.symm.trans hZero)
    refine ⟨it :: chest.items, ?_, List.Perm.refl _⟩
    rw [restoreOne, addItem_spawned hPos hSome hRoom, entry_eq hFits]

/-- An entry that cannot be added merges or gets lost. -/
theorem restoreOne_not_addable (hFits : Storable chest.maxchest it) (h : ¬Addable chest it) :
    ∃ items, restoreOne chest it = { chest with items := items } ∧ items.length = chest.items.length := by
  obtain ⟨hSlot, hBlocked⟩ := Classical.not_imp.mp h
  have hZero : toInt it.slot = 0 := hFits.slot.trans hSlot
  unfold restoreOne
  rw [hZero]
  obtain hFull | ⟨-, -, a, hFound, -, -, hMerged⟩ | ⟨-, -, hMissing, -, hUser, -⟩ | ⟨-, hNe, -⟩ :=
    chest.addItem_cases (toShort it.id) (toInt it.amount) 0
  · exact ⟨chest.items, by rw [hFull], rfl⟩
  · refine ⟨_, by rw [hMerged], ?_⟩
    obtain ⟨before, after, hItems, hModified⟩ := modifyFirst_split hFound (grown (toInt it.amount))
    rw [hModified, hItems, List.length_append, List.length_append, List.length_cons, List.length_cons]
  · refine absurd ⟨fun a ha hSame => ?_, hUser⟩ hBlocked
    exact List.find?_eq_none.mp hMissing a ha (decide_eq_true (hSame.trans hFits.id.symm))
  · exact absurd rfl hNe

theorem restoreOne_settings (chest : MapChest) (it : MapChestItem) :
    ∃ items, restoreOne chest it = { chest with items := items } ∧ items.length ≤ chest.items.length + 1 := by
  unfold restoreOne
  obtain hFull | ⟨-, -, a, hFound, -, -, hMerged⟩ | ⟨-, -, -, -, -, hUser⟩ | ⟨-, -, -, hSpawned⟩ :=
    chest.addItem_cases (toShort it.id) (toInt it.amount) (toInt it.slot)
  · exact ⟨chest.items, by rw [hFull], Nat.le_succ _⟩
  · refine ⟨_, by rw [hMerged], ?_⟩
    obtain ⟨before, after, hItems, hModified⟩ := modifyFirst_split hFound (grown (toInt it.amount))
    rw [hModified, hItems]
    simp
  · exact ⟨_, by rw [hUser], by simp⟩
  · exact ⟨_, by rw [hSpawned], by simp⟩

end One

section All

theorem replay_length (chest : MapChest) (entries : List MapChestItem) :
    (replay chest entries).items.length ≤ chest.items.length + entries.length := by
  induction entries generalizing chest with
  | nil => exact Nat.le_refl _
  | cons it rest ih =>
      obtain ⟨items, hOne, hLength⟩ := restoreOne_settings chest it
      have hRest := ih (restoreOne chest it)
      rw [hOne] at hRest
      rw [replay, List.foldl_cons, hOne, List.length_cons]
      exact hRest.trans (by dsimp only; omega)

theorem userCount_cons (it : MapChestItem) (rest : List MapChestItem) :
    userCount (it :: rest) = (if it.slot = 0 then 1 else 0) + userCount rest := by
  unfold userCount
  by_cases hSlot : it.slot = 0
  · simp [hSlot, Nat.add_comm]
  · simp [hSlot]

/-- The first entry is added, and then the others. -/
theorem allAddable_cons {chest : MapChest} {it : MapChestItem} {rest items : List MapChestItem}
    (hItems : items.Perm (it :: chest.items)) :
    AllAddable chest (it :: rest) ↔ Addable chest it ∧ AllAddable { chest with items := items } rest := by
  have hUsers : MapChest.userItems { chest with items := items } =
      (if it.slot = 0 then 1 else 0) + chest.userItems := by
    have hCount : userCount items = userCount (it :: chest.items) := (hItems.filter _).length_eq
    rw [userItems_eq, userItems_eq, hCount, userCount_cons]
    split <;> simp
  constructor
  · intro h
    obtain ⟨hHead, hTail⟩ := List.pairwise_cons.mp h.apart
    refine ⟨fun hSlot => ⟨fun a ha => h.fresh a ha it List.mem_cons_self hSlot, ?_⟩, ?_, hTail, ?_⟩
    · have hFirst := h.room 0 (by rw [userCount_cons, if_pos hSlot]; omega)
      rw [Int.natCast_zero, Int.add_zero] at hFirst
      exact hFirst
    · intro a ha b hb hSlot
      rcases List.mem_cons.mp (hItems.mem_iff.mp ha) with rfl | hOld
      · exact hHead b hb hSlot
      · exact h.fresh a hOld b (List.mem_cons_of_mem _ hb) hSlot
    · intro k hk
      rw [hUsers]
      by_cases hSlot : it.slot = 0
      · have hNext := h.room (k + 1) (by rw [userCount_cons, if_pos hSlot]; omega)
        rw [if_pos hSlot]
        convert hNext using 2
        push_cast
        omega
      · have hSame := h.room k (by rw [userCount_cons, if_neg hSlot]; omega)
        rw [if_neg hSlot, Int.zero_add]
        exact hSame
  · rintro ⟨hFirst, h⟩
    refine ⟨?_, ?_, ?_⟩
    · intro a ha b hb hSlot
      rcases List.mem_cons.mp hb with rfl | hOld
      · exact (hFirst hSlot).1 a ha
      · exact h.fresh a (hItems.mem_iff.mpr (List.mem_cons_of_mem _ ha)) b hOld hSlot
    · refine List.pairwise_cons.mpr ⟨fun b hb hSlot => ?_, h.apart⟩
      exact h.fresh it (hItems.mem_iff.mpr List.mem_cons_self) b hb hSlot
    · intro k hk
      rw [userCount_cons] at hk
      by_cases hSlot : it.slot = 0
      · rw [if_pos hSlot] at hk
        cases k with
        | zero =>
            rw [Int.natCast_zero, Int.add_zero]
            exact (hFirst hSlot).2
        | succ k =>
            have hNext := h.room k (by omega)
            rw [hUsers, if_pos hSlot] at hNext
            convert hNext using 2
            push_cast
            omega
      · rw [if_neg hSlot] at hk
        have hSame := h.room k (by omega)
        rw [hUsers, if_neg hSlot, Int.zero_add] at hSame
        exact hSame

/-- Everything is there again exactly if every entry can be added. -/
theorem replay_perm_iff {chest : MapChest} {entries : List MapChestItem}
    (hLength : ((chest.items.length + entries.length : Nat) : Int) ≤ chest.chestslots % 2 ^ 64)
    (hFits : ∀ it ∈ entries, Storable chest.maxchest it) :
    (replay chest entries).items.Perm (chest.items ++ entries) ↔ AllAddable chest entries := by
  induction entries generalizing chest with
  | nil =>
      rw [List.append_nil]
      refine iff_of_true (List.Perm.refl _) ⟨?_, List.Pairwise.nil, ?_⟩
      · intro a ha b hMem
        cases hMem
      · intro k hk
        cases hk
  | cons it rest ih =>
      rw [List.length_cons] at hLength
      have hFirst := hFits it List.mem_cons_self
      by_cases hAddable : Addable chest it
      · obtain ⟨items, hOne, hItems⟩ := restoreOne_addable hFirst (by omega) hAddable
        have hCount := hItems.length_eq
        rw [List.length_cons] at hCount
        have hAll := @ih { chest with items := items } (by dsimp only; omega) fun b hb =>
          hFits b (List.mem_cons_of_mem _ hb)
        have hMiddle : (items ++ rest).Perm (chest.items ++ it :: rest) :=
          (hItems.append_right rest).trans List.perm_middle.symm
        rw [allAddable_cons hItems, ← hAll, and_iff_right hAddable, replay, List.foldl_cons, hOne]
        exact ⟨fun h => h.trans hMiddle.symm, fun h => h.trans hMiddle⟩
      · obtain ⟨items, hOne, hCount⟩ := restoreOne_not_addable hFirst hAddable
        refine iff_of_false (fun hPerm => ?_) fun h => hAddable ((allAddable_cons (List.Perm.refl _)).mp h).1
        have hFew := replay_length { chest with items := items } rest
        have hMany := hPerm.length_eq
        rw [replay, List.foldl_cons, hOne, List.length_append, List.length_cons] at hMany
        rw [replay] at hFew
        dsimp only at hFew
        omega

/-- No entry of a user is behind one of the same item, and the entries of users fit beside
the slots of spawned items. -/
structure Replayable (chest : MapChest) : Prop where
  apart : chest.items.Pairwise fun a b => b.slot = 0 → a.id ≠ b.id
  room : ∀ k < userCount chest.items, toInt (k + chest.slots) < chest.chestslots

theorem replay_emptied_iff {chest : MapChest} (h : Bounded chest) :
    (replay (emptied chest) chest.items).items.Perm chest.items ↔ Replayable chest := by
  have hLength : (((emptied chest).items.length + chest.items.length : Nat) : Int) ≤
      (emptied chest).chestslots % 2 ^ 64 := by
    rw [emptied, List.length_nil, Nat.zero_add]
    exact h.length
  refine (replay_perm_iff hLength h.storable).trans ⟨fun hAll => ⟨hAll.apart, fun k hk => ?_⟩, fun hAll => ?_⟩
  · have hRoom := hAll.room k hk
    rw [userItems_eq, emptied, userCount, List.filter_nil, List.length_nil, Int.natCast_zero, Int.zero_add] at hRoom
    exact hRoom
  · refine ⟨?_, hAll.apart, fun k hk => ?_⟩
    · intro a hMem
      cases hMem
    · rw [userItems_eq, emptied, userCount, List.filter_nil, List.length_nil, Int.natCast_zero, Int.zero_add]
      exact hAll.room k hk

end All

end Etheos.WorldDump
