import Etheos.General.Run
import Etheos.Stores.Ground

/-! The numbers of the items on a map. -/
namespace Etheos.Stores.Ground

open Characters General Entries

/-- The loop of `GenerateItemID`, for so many turns at most. It starts again with all items
when the number is taken. -/
def scan (items : List MapItem) : Nat → Int → List MapItem → Option Int
  | _, lowest, [] => some lowest
  | 0, _, _ :: _ => none
  | turns + 1, lowest, item :: rest =>
      if item.uid = lowest then scan items turns (item.uid + 1) items else scan items turns lowest rest

section Scan

variable {items : List MapItem}

theorem scan_free {rest : List MapItem} {n : Int} (h : ∀ item ∈ rest, item.uid ≠ n) {turns : Nat}
    (hTurns : rest.length ≤ turns) : scan items turns n rest = some n := by
  induction rest generalizing turns with
  | nil => rw [scan]
  | cons item rest ih =>
      obtain ⟨hFirst, hRest⟩ := List.forall_mem_cons.mp h
      cases turns with
      | zero => exact absurd hTurns (Nat.not_succ_le_zero _)
      | succ turns =>
          rw [scan, if_neg hFirst]
          exact ih hRest (Nat.le_of_succ_le_succ hTurns)

/-- A number that is taken leads to the next one. -/
theorem scan_taken {rest : List MapItem} {n : Int} (h : ∃ item ∈ rest, item.uid = n) :
    ∃ used, ∀ turns, scan items (turns + used) n rest = scan items turns (n + 1) items := by
  induction rest with
  | nil =>
      obtain ⟨item, hItem, -⟩ := h
      cases hItem
  | cons item rest ih =>
      by_cases hFirst : item.uid = n
      · refine ⟨1, fun turns => ?_⟩
        rw [scan, if_pos hFirst, hFirst]
      · obtain ⟨other, hOther, hUid⟩ := h
        have hRest : other ∈ rest := by
          obtain rfl | hRest := List.mem_cons.mp hOther
          · exact absurd hUid hFirst
          · exact hRest
        obtain ⟨used, hUsed⟩ := ih ⟨other, hRest, hUid⟩
        refine ⟨used + 1, fun turns => ?_⟩
        rw [← Nat.add_assoc, scan, if_neg hFirst, hUsed]

theorem scan_lowestFree {restarts : Nat} {n : Int}
    (h : ∀ item ∈ items, item.uid ≠ lowestFree items restarts n) :
    ∃ turns, ∀ more, turns ≤ more → scan items more n items = some (lowestFree items restarts n) := by
  induction restarts generalizing n with
  | zero => exact ⟨items.length, fun more hMore => scan_free h hMore⟩
  | succ restarts ih =>
      unfold lowestFree at h ⊢
      split at h
      case isTrue hTaken =>
        obtain ⟨item, hItem, hUid⟩ := List.any_eq_true.mp hTaken
        obtain ⟨used, hUsed⟩ := @scan_taken items _ _ ⟨item, hItem, of_decide_eq_true hUid⟩
        obtain ⟨turns, hTurns⟩ := ih h
        refine ⟨turns + used, fun more hMore => ?_⟩
        rw [if_pos hTaken, ← hTurns (more - used) (by omega), ← hUsed, Nat.sub_add_cancel (by omega)]
      case isFalse hFree =>
        rw [if_neg hFree]
        exact ⟨items.length, fun more hMore => scan_free h hMore⟩

/-- The search comes to an end. -/
theorem scan_ends (items : List MapItem) :
    ∃ turns, ∀ more, turns ≤ more → scan items more 1 items = some (generateItemID items) :=
  scan_lowestFree (generateItemID_fresh items)

theorem generateItemID_least (items : List MapItem) :
    IsLeast {n : Int | 0 < n ∧ ∀ item ∈ items, item.uid ≠ n} (generateItemID items) := by
  obtain ⟨hBelow, hFrom, -⟩ := lowestFree_spec items items.length 1
  refine ⟨⟨hFrom, generateItemID_fresh items⟩, fun n hn => Int.not_lt.mp fun hLess => ?_⟩
  obtain ⟨item, hItem, hUid⟩ := hBelow n hn.1 hLess
  exact hn.2 item hItem hUid

theorem lowestFree_le (items : List MapItem) (restarts : Nat) (n : Int) :
    lowestFree items restarts n ≤ n + restarts := by
  induction restarts generalizing n with
  | zero => simp [lowestFree]
  | succ restarts ih =>
      have hNext := ih (n + 1)
      unfold lowestFree
      split
      · omega
      · omega

theorem generateItemID_le (items : List MapItem) : generateItemID items ≤ items.length + 1 := by
  have hLe := lowestFree_le items items.length 1
  unfold generateItemID
  omega

end Scan

/-- `Map::AddItem`, with the item that is returned. The room is looked at for a character only. -/
def addItemFor (cfg : GroundConfig) (character : Bool) (new : MapItem) (items : List MapItem) :
    MapItem × List MapItem :=
  if character ∧ ¬HasRoom cfg items new.x new.y then ({ new with uid := 0 }, items)
  else
    let new := { new with uid := toShort (generateItemID items) }
    (new, items ++ [new])

/-- Where a killed NPC leaves its drop, and whose it is. -/
structure DropPlace where
  x : Int
  y : Int
  killer : Int
  winner : Option Int
  unprotecttime : Int

/-- What `NPC::Killed` puts on the map. The item is chosen and the amount is rolled. -/
def npcDrop (cfg : GroundConfig) (dropid roll : Int) (place : DropPlace) (items : List MapItem) : List MapItem :=
  let dropamount := min roll cfg.maxItem
  if dropid ≤ 0 ∨ cfg.eifSize ≤ dropid ∨ dropamount ≤ 0 then items
  else
    let new : MapItem :=
      { toCharacterItem := .of dropid dropamount, uid := toShort (generateItemID items), x := place.x
        y := place.y, owner := place.winner.getD place.killer, unprotecttime := place.unprotecttime }
    items ++ [new]

def delItem (uid : Int) (items : List MapItem) : List MapItem := eraseFirst (·.uid = uid) items

inductive Event where
  /-- The owner and the time are set by the caller. -/
  | addItem (character : Bool) (new : MapItem)
  | killed (dropid roll : Int) (place : DropPlace)
  | delItem (uid : Int)
  | delSomeItem (uid amount : Int)

def step (cfg : GroundConfig) (items : List MapItem) : Event → Option (List MapItem)
  | .addItem character new => some (addItemFor cfg character new items).2
  | .killed dropid roll place => some (npcDrop cfg dropid roll place items)
  | .delItem uid => some (Ground.delItem uid items)
  | .delSomeItem uid amount => some (Ground.delSomeItem uid amount items)

/-- Every item can be told from the others, and a number for the next one is found. -/
structure Numbered (items : List MapItem) : Prop where
  distinct : (items.map (·.uid)).Nodup
  short : ∀ item ∈ items, 0 < item.uid ∧ item.uid ≤ 32767
  generates : ∃ n, IsLeast {n : Int | 0 < n ∧ ∀ item ∈ items, item.uid ≠ n} n ∧
    ∃ turns, ∀ more, turns ≤ more → scan items more 1 items = some n
  found : ∀ uid item, getItem uid items = some item ↔ item ∈ items ∧ item.uid = uid

section Runs

variable {cfg : GroundConfig} {items next : List MapItem} {event : Event}

theorem delSomeItem_uids (uid amount : Int) (items : List MapItem) :
    ((delSomeItem uid amount items).map (·.uid)).Sublist (items.map (·.uid)) := by
  unfold delSomeItem
  split
  · exact List.Sublist.refl _
  · split
    · exact List.Sublist.refl _
    · split
      · have hSame : ∀ item ∈ items, (lessened amount item).uid = item.uid := fun _ _ => rfl
        rw [map_modifyFirst _ hSame]
      · exact (eraseFirst_sublist _ items).map _

/-- A step takes items away, or it puts one behind the others. -/
theorem step_cases (h : step cfg items event = some next) :
    (next.map (·.uid)).Sublist (items.map (·.uid)) ∨
      ∃ new, next = items ++ [new] ∧ new.uid = toShort (generateItemID items) := by
  cases event with
  | addItem character new =>
      obtain rfl := Option.some.inj h
      unfold addItemFor
      split
      · exact .inl (List.Sublist.refl _)
      · exact .inr ⟨_, rfl, rfl⟩
  | killed dropid roll place =>
      obtain rfl := Option.some.inj h
      unfold npcDrop
      dsimp only
      split
      · exact .inl (List.Sublist.refl _)
      · exact .inr ⟨_, rfl, rfl⟩
  | delItem uid =>
      obtain rfl := Option.some.inj h
      exact .inl ((eraseFirst_sublist _ items).map _)
  | delSomeItem uid amount =>
      obtain rfl := Option.some.inj h
      exact .inl (delSomeItem_uids uid amount items)

/-- The numbers are distinct, positive and fit in a `short`. -/
def Sound (items : List MapItem) : Prop :=
  (items.map (·.uid)).Nodup ∧ ∀ n ∈ items.map (·.uid), 0 < n ∧ n ≤ 32767

theorem Sound.step (h : Sound items) (hFew : next.length ≤ 32766) (hStep : step cfg items event = some next) :
    Sound next := by
  obtain ⟨hDistinct, hShort⟩ := h
  obtain hLess | ⟨new, rfl, hNew⟩ := step_cases hStep
  · exact ⟨hDistinct.sublist hLess, fun n hn => hShort n (hLess.subset hn)⟩
  · have hLe := generateItemID_le items
    have hPos := (generateItemID_least items).1.1
    rw [List.length_append, List.length_singleton] at hFew
    have hUid : new.uid = generateItemID items := by
      rw [hNew]
      exact Int.bmod_eq_of_le (by omega) (by omega)
    have hFresh : new.uid ∉ items.map (·.uid) := by
      intro hMem
      obtain ⟨item, hItem, hSame⟩ := List.mem_map.mp hMem
      exact generateItemID_fresh items item hItem (hSame.trans hUid)
    rw [Sound, List.map_append, List.map_singleton]
    refine ⟨List.nodup_append_comm.mp (List.nodup_cons.mpr ⟨hFresh, hDistinct⟩), fun n hn => ?_⟩
    obtain hOld | hLast := List.mem_append.mp hn
    · exact hShort n hOld
    · rw [List.mem_singleton.mp hLast, hUid]
      omega

theorem Sound.found (h : Sound items) (uid : Int) (item : MapItem) :
    getItem uid items = some item ↔ item ∈ items ∧ item.uid = uid := by
  constructor
  · intro hFound
    exact ⟨List.mem_of_find?_eq_some hFound, uid_of_found hFound⟩
  · rintro ⟨hItem, hUid⟩
    cases hFound : getItem uid items with
    | none => exact absurd (decide_eq_true hUid) (List.find?_eq_none.mp hFound item hItem)
    | some other =>
        have hOther := List.mem_of_find?_eq_some hFound
        have hSame : other.uid = item.uid := (uid_of_found hFound).trans hUid.symm
        rw [List.inj_on_of_nodup_map h.1 hOther hItem hSame]

theorem Sound.numbered (h : Sound items) : Numbered items where
  distinct := h.1
  short item hItem := h.2 item.uid (List.mem_map_of_mem hItem)
  generates := ⟨generateItemID items, generateItemID_least items, scan_ends items⟩
  found := h.found

end Runs

/-- A map that never has more than 32766 items. -/
theorem items_numbered (cfg : GroundConfig) {events : List Event}
    (hFew : Always (step cfg) (fun items => items.length ≤ 32766) [] events) :
    Always (step cfg) Numbered [] events := by
  have hStart : Sound [] := ⟨List.nodup_nil, nofun⟩
  have hSound : Always (step cfg) Sound [] events :=
    hFew.carry (fun _ _ _ hInv hNext hStep => hInv.step hNext hStep) hStart
  exact hSound.mono fun _ h => h.numbered

/-- The number of an item that is gone is given again. -/
def dropping : List Event :=
  [.addItem true ⟨.of 3 5, 0, 1, 1, 7, 0⟩, .killed 2 2 ⟨4, 4, 7, none, 10⟩, .delItem 1,
    .addItem false ⟨.of 4 1, 0, 1, 1, 7, 0⟩, .delSomeItem 2 1]

theorem items_numbered_dropping : Always (step smallGround) Numbered [] dropping :=
  items_numbered smallGround (by decide)

end Etheos.Stores.Ground
