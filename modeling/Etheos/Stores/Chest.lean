import Etheos.General.Entries
import Etheos.Stores.Carried

/-! The chests of a map. -/
namespace Etheos.Stores

open Characters CharacterItem General Entries

/-- `Map_Chest_Item`. Items that a user has put in have no slot. -/
structure MapChestItem extends CharacterItem where
  slot : Int
  deriving DecidableEq

structure MapChest where
  x : Int
  y : Int
  items : List MapChestItem
  /-- The number of slots kept for spawned items. -/
  slots : Int
  maxchest : Int
  chestslots : Int
  deriving DecidableEq

structure ChestConfig extends Config where
  maxChest : Int
  lore : Int → Bool
  /-- A `Chest` on the map. -/
  chestTile : Int → Int → Int → Bool

namespace MapChest

def hasItem (self : MapChest) (item : Int) : Int :=
  match self.items.find? (·.id = item) with
  | none => 0
  | some it => it.amount

/-- `item.amount += amount`. -/
def grown (amount : Int) (it : MapChestItem) : MapChestItem :=
  { it with toCharacterItem := .of it.id (it.amount + amount) }

/-- `it->amount -= amount`, where what stays is a user's. -/
def lessened (amount : Int) (it : MapChestItem) : MapChestItem :=
  { toCharacterItem := .of it.id (it.amount - amount), slot := 0 }

def userItems (self : MapChest) : Int := (self.items.filter (·.slot = 0)).length

def addItem (self : MapChest) (item amount slot : Int) : MapChest × Int :=
  if amount ≤ 0 then (self, 0)
  else
    match if slot = 0 then self.items.find? (·.id = item) else none with
    | some it =>
        if toInt (it.amount + amount) < 0 ∨ self.maxchest < toInt (it.amount + amount) then (self, 0)
        else ({ self with items := modifyFirst (·.id = item) (grown amount) self.items }, amount)
    | none =>
        if self.chestslots % 2 ^ 64 ≤ self.items.length ∨ self.maxchest < amount then (self, 0)
        else if slot = 0 ∧ self.chestslots ≤ toInt (self.userItems + self.slots) then (self, 0)
        else if slot = 0 then ({ self with items := self.items ++ [⟨.of item amount, slot⟩] }, amount)
        else ({ self with items := ⟨.of item amount, slot⟩ :: self.items }, amount)

def delItem (self : MapChest) (item : Int) : MapChest × Int :=
  match self.items.find? (·.id = item) with
  | none => (self, 0)
  | some it => ({ self with items := eraseFirst (·.id = item) self.items }, it.amount)

def delSomeItem (self : MapChest) (item amount : Int) : MapChest × Int :=
  match self.items.find? (·.id = item) with
  | none => (self, 0)
  | some it =>
      if amount < it.amount then
        ({ self with items := modifyFirst (·.id = item) (lessened amount) self.items }, toInt (it.amount - amount))
      else self.delItem item

/-- The amount of an item in all entries. -/
def held (self : MapChest) (id : Int) : Int :=
  (self.items.map fun it => if it.id = id then it.amount else 0).sum

end MapChest

section Handlers

variable (cfg : ChestConfig) (quests : Checks)

/-- What happens to the chests of the map, and how much is put in. Only the first
chest at the place counts. -/
def putIn (self : Body) (x y id amount : Int) : List MapChest → Option (List MapChest × Int)
  | [] => none
  | chest :: rest =>
      if chest.x = x ∧ chest.y = y then
        let amount := min amount (toInt (cfg.maxChest - chest.hasItem (toShort id)))
        if amount ≤ hasItem self (toShort id) false ∧
            (chest.addItem (toShort id) amount 0).2 ≠ 0 then
          some ((chest.addItem (toShort id) amount 0).1 :: rest, amount)
        else none
      else (putIn self x y id amount rest).map fun (chests, n) => (chest :: chests, n)

def chestAdd (x y id amount : Int) : Prog (List MapChest) Unit := do
  let s ← get
  let self := s.body
  if self.trading then return ()
  else if self.nointeract then return ()
  else if cfg.lore id then return ()
  else if pathLength self.x self.y x y ≤ 1 ∧ cfg.chestTile self.mapid x y then
    match putIn cfg self x y id (toInt amount) s.store with
    | none => return ()
    | some (chests, amount) =>
        modify (·.put chests)
        discard (delItem quests (toShort id) amount)
  else return ()

/-- What happens to the chests of the map, and how much is taken out. A chest that
gives nothing is passed over. -/
def takeOut (self : Body) (x y id : Int) : List MapChest → Option (List MapChest × Int)
  | [] => none
  | chest :: rest =>
      let taken := canHoldItem cfg.toConfig self (toShort id) (chest.hasItem (toShort id))
      if (chest.x = x ∧ chest.y = y) ∧ 0 < taken then
        some ((chest.delSomeItem (toShort id) taken).1 :: rest, taken)
      else (takeOut self x y id rest).map fun (chests, n) => (chest :: chests, n)

def chestTake (x y id : Int) : Prog (List MapChest) Unit := do
  let s ← get
  let self := s.body
  if pathLength self.x self.y x y ≤ 1 ∧ cfg.chestTile self.mapid x y then
    match takeOut cfg self x y id s.store with
    | none => return ()
    | some (chests, taken) =>
        modify (·.put chests)
        discard (addItem cfg.toConfig quests (toShort id) taken)
  else return ()

end Handlers

namespace MapChest

section Amounts

variable {chest : MapChest} {item n : Int}

theorem id_of_found {items : List MapChestItem} {it : MapChestItem}
    (hFound : items.find? (·.id = item) = some it) : it.id = item :=
  of_found (p := fun it : MapChestItem => it.id = item) hFound

theorem amount_symm (a b n : Int) : (if a = b then n else 0) = if b = a then n else 0 :=
  if_congr eq_comm rfl rfl

/-- `items.size() < chestslots` as unsigned numbers, and the amount alone is not too much. -/
def HasRoom (chest : MapChest) (amount : Int) : Prop :=
  (chest.items.length : Int) < chest.chestslots % 2 ^ 64 ∧ amount ≤ chest.maxchest

/-- The slots of spawned items are kept free. -/
def HasUserRoom (chest : MapChest) : Prop := toInt (chest.userItems + chest.slots) < chest.chestslots

theorem addItem_user {amount : Int} (hPos : 0 < amount) (hMissing : chest.items.find? (·.id = item) = none)
    (hRoom : chest.HasRoom amount) (hUser : chest.HasUserRoom) :
    chest.addItem item amount 0 = ({ chest with items := chest.items ++ [⟨.of item amount, 0⟩] }, amount) := by
  unfold HasUserRoom at hUser
  unfold addItem
  rw [if_neg (Int.not_le.mpr hPos), if_pos rfl, hMissing]
  dsimp only
  rw [if_neg (not_or.mpr ⟨Int.not_le.mpr hRoom.1, Int.not_lt.mpr hRoom.2⟩), if_neg (by omega), if_pos rfl]

theorem addItem_spawned {amount slot : Int} (hPos : 0 < amount) (hSlot : slot ≠ 0)
    (hRoom : chest.HasRoom amount) :
    chest.addItem item amount slot = ({ chest with items := ⟨.of item amount, slot⟩ :: chest.items }, amount) := by
  unfold addItem
  rw [if_neg (Int.not_le.mpr hPos), if_neg hSlot]
  dsimp only
  rw [if_neg (not_or.mpr ⟨Int.not_le.mpr hRoom.1, Int.not_lt.mpr hRoom.2⟩), if_neg (by omega), if_neg hSlot]

/-- What `AddItem` can do: nothing, let an entry grow, or add one of a user or of a spawn. -/
theorem addItem_cases (chest : MapChest) (item amount slot : Int) :
    chest.addItem item amount slot = (chest, 0) ∨
    (0 < amount ∧ slot = 0 ∧ ∃ it, chest.items.find? (·.id = item) = some it ∧
      0 ≤ toInt (it.amount + amount) ∧ toInt (it.amount + amount) ≤ chest.maxchest ∧
      chest.addItem item amount slot =
        ({ chest with items := modifyFirst (·.id = item) (grown amount) chest.items }, amount)) ∨
    (0 < amount ∧ slot = 0 ∧ chest.items.find? (·.id = item) = none ∧ chest.HasRoom amount ∧
      chest.HasUserRoom ∧
      chest.addItem item amount slot =
        ({ chest with items := chest.items ++ [⟨.of item amount, slot⟩] }, amount)) ∨
    (0 < amount ∧ slot ≠ 0 ∧ chest.HasRoom amount ∧
      chest.addItem item amount slot =
        ({ chest with items := ⟨.of item amount, slot⟩ :: chest.items }, amount)) := by
  by_cases hPos : 0 < amount
  case neg => exact .inl (if_pos (Int.not_lt.mp hPos))
  cases hEntry : if slot = 0 then chest.items.find? (·.id = item) else none with
  | some it =>
      obtain ⟨rfl, hFound⟩ := Option.ite_none_right_eq_some.mp hEntry
      by_cases hFull : toInt (it.amount + amount) < 0 ∨ chest.maxchest < toInt (it.amount + amount)
      · refine .inl ?_
        unfold addItem
        rw [if_neg (Int.not_le.mpr hPos), hEntry]
        exact if_pos hFull
      · refine .inr (.inl ⟨hPos, rfl, it, hFound, by omega, by omega, ?_⟩)
        unfold addItem
        rw [if_neg (Int.not_le.mpr hPos), hEntry]
        exact if_neg hFull
  | none =>
      by_cases hRoom : chest.HasRoom amount
      case neg =>
        refine .inl ?_
        unfold HasRoom at hRoom
        unfold addItem
        rw [if_neg (Int.not_le.mpr hPos), hEntry]
        exact if_pos (by omega)
      by_cases hSlot : slot = 0
      · subst hSlot
        by_cases hUser : chest.HasUserRoom
        · exact .inr (.inr (.inl ⟨hPos, rfl, hEntry, hRoom, hUser, addItem_user hPos hEntry hRoom hUser⟩))
        · refine .inl ?_
          unfold addItem
          rw [if_neg (Int.not_le.mpr hPos), hEntry]
          dsimp only
          rw [if_neg (not_or.mpr ⟨Int.not_le.mpr hRoom.1, Int.not_lt.mpr hRoom.2⟩)]
          exact if_pos ⟨rfl, Int.not_lt.mp hUser⟩
      · exact .inr (.inr (.inr ⟨hPos, hSlot, hRoom, addItem_spawned hPos hSlot hRoom⟩))

theorem delSomeItem_cases (chest : MapChest) (item amount : Int) :
    (chest.delSomeItem item amount).1 = chest ∨
    (∃ it, chest.items.find? (·.id = item) = some it ∧ amount < it.amount ∧
      (chest.delSomeItem item amount).1 =
        { chest with items := modifyFirst (·.id = item) (lessened amount) chest.items }) ∨
    (chest.delSomeItem item amount).1 = { chest with items := eraseFirst (·.id = item) chest.items } := by
  unfold delSomeItem delItem
  cases hFound : chest.items.find? (·.id = item) with
  | none => exact .inl rfl
  | some it =>
      dsimp only
      split
      case isTrue hLess => exact .inr (.inl ⟨it, rfl, hLess, rfl⟩)
      case isFalse => exact .inr (.inr rfl)

/-- What the chest says it has taken is in it. -/
theorem addItem_held (hn : IsInt n) (h : (chest.addItem item n 0).2 ≠ 0) :
    0 < n ∧ ∀ x, (chest.addItem item n 0).1.held x = chest.held x + if x = item then n else 0 := by
  obtain hFull | ⟨hPos, -, it, hFound, hMin, -, hMerged⟩ | ⟨hPos, -, -, -, -, hNew⟩ | ⟨-, hSlot, -⟩ :=
    chest.addItem_cases item n 0
  · exact absurd (congrArg Prod.snd hFull) h
  · refine ⟨hPos, fun x => ?_⟩
    have hExact := toInt_add it.isInt hn hPos hMin
    rw [hMerged, held, sum_modifyFirst _ hFound, grown, of_id, of_amount, hExact, held, id_of_found hFound]
    grind
  · refine ⟨hPos, fun x => ?_⟩
    rw [hNew, held, sum_append_one, of_id, of_amount, hn.toInt_eq, held, amount_symm]
  · exact absurd rfl hSlot

/-- As much as was asked for is gone, if it was there. -/
theorem delSomeItem_held (hPos : 0 < n) (hEnough : n ≤ chest.hasItem item) (x : Int) :
    (chest.delSomeItem item n).1.held x = chest.held x - if x = item then n else 0 := by
  unfold delSomeItem delItem
  unfold hasItem at hEnough
  cases hFound : chest.items.find? (·.id = item) with
  | none =>
      rw [hFound] at hEnough
      dsimp only at hEnough
      omega
  | some it =>
      rw [hFound] at hEnough
      dsimp only at hEnough ⊢
      by_cases hLess : n < it.amount
      · have hExact : toInt (it.amount - n) = it.amount - n := by
          have hItem := it.isInt
          unfold IsInt at hItem
          exact IsInt.toInt_eq ⟨by omega, by omega⟩
        rw [if_pos hLess, held, sum_modifyFirst _ hFound, lessened, of_id, of_amount, hExact, held,
          id_of_found hFound]
        split
        · omega
        · omega
      · rw [if_neg hLess, held, sum_eraseFirst _ hFound, held, id_of_found hFound]
        split
        · omega
        · omega

end Amounts

end MapChest

/-- One chest has got more of an item, and the others are as before. -/
def Shifted (item n : Int) (chests chests' : List MapChest) : Prop :=
  ∃ before chest chest' after, chests = before ++ chest :: after ∧
    chests' = before ++ chest' :: after ∧
      ∀ x, chest'.held x = chest.held x + if x = item then n else 0

theorem Shifted.head {item n : Int} {chest chest' : MapChest} {rest : List MapChest}
    (h : ∀ x, chest'.held x = chest.held x + if x = item then n else 0) :
    Shifted item n (chest :: rest) (chest' :: rest) :=
  ⟨[], chest, chest', rest, rfl, rfl, h⟩

theorem Shifted.cons {item n : Int} {chests chests' : List MapChest} (h : Shifted item n chests chests')
    (first : MapChest) : Shifted item n (first :: chests) (first :: chests') := by
  obtain ⟨before, chest, chest', after, rfl, rfl, hHeld⟩ := h
  exact ⟨first :: before, chest, chest', after, rfl, rfl, hHeld⟩

/-- What one chest and the inventory hold stays the same together, and all other
chests stay as they are. -/
def ChestConserved (s s' : State (List MapChest)) : Prop :=
  (s'.store = s.store ∧ ∀ id, s'.own id = s.own id) ∨
    ∃ before chest chest' after, s.store = before ++ chest :: after ∧
      s'.store = before ++ chest' :: after ∧ ∀ id, s'.own id + chest'.held id = s.own id + chest.held id

/-- What all chests hold of an item. -/
def heldIn (id : Int) (chests : List MapChest) : Int := (chests.map (·.held id)).sum

theorem ChestConserved.sum {s s' : State (List MapChest)} (h : ChestConserved s s') (id : Int) :
    s'.own id + heldIn id s'.store = s.own id + heldIn id s.store := by
  obtain ⟨hStore, hOwn⟩ | ⟨before, chest, chest', after, hStore, hStore', hTotal⟩ := h
  · rw [hStore, hOwn]
  · have hOne := hTotal id
    rw [hStore, hStore', heldIn, heldIn, sum_split, sum_split]
    omega

theorem ChestConserved.refl (s : State (List MapChest)) : ChestConserved s s :=
  .inl ⟨rfl, fun _ => rfl⟩

theorem Shifted.heldIn {item n : Int} {chests chests' : List MapChest} (h : Shifted item n chests chests')
    (id : Int) : heldIn id chests' = heldIn id chests + if id = item then n else 0 := by
  obtain ⟨before, chest, chest', after, rfl, rfl, hHeld⟩ := h
  rw [Stores.heldIn, Stores.heldIn, sum_split, sum_split, hHeld]
  omega

/-- What a chest has got more of is missing in the inventory. -/
theorem Shifted.conserved {i n : Int} {s s' : State (List MapChest)} (h : Shifted i n s.store s'.store)
    (hOwn : ∀ id, s'.own id = s.own id - if id = i then n else 0) : ChestConserved s s' := by
  obtain ⟨before, chest, chest', after, hStore, hStore', hHeld⟩ := h
  refine .inr ⟨before, chest, chest', after, hStore, hStore', fun id => ?_⟩
  rw [hOwn, hHeld]
  omega

section Add

variable {cfg : ChestConfig} {self : Body} {x y id amount : Int}

/-- What is put in is carried. -/
theorem putIn_shifted (hAmount : IsInt amount) {chests chests' : List MapChest} {n : Int}
    (h : putIn cfg self x y id amount chests = some (chests', n)) :
    0 < n ∧ n ≤ hasItem self (toShort id) false ∧ Shifted (toShort id) n chests chests' := by
  induction chests generalizing chests' with
  | nil => cases h
  | cons chest rest ih =>
      unfold putIn at h
      split at h
      · dsimp only at h
        split at h
        case isTrue hTaken =>
          cases h
          have hInt : IsInt (min amount (toInt (cfg.maxChest - chest.hasItem (toShort id)))) := by
            have hRoom := isInt_toInt (cfg.maxChest - chest.hasItem (toShort id))
            unfold IsInt at *
            omega
          obtain ⟨hPos, hHeld⟩ := MapChest.addItem_held hInt hTaken.2
          exact ⟨hPos, hTaken.1, .head hHeld⟩
        · cases h
      · obtain ⟨⟨others, m⟩, hRest, hPair⟩ := Option.map_eq_some_iff.mp h
        cases hPair
        obtain ⟨hPos, hEnough, hShifted⟩ := ih hRest
        exact ⟨hPos, hEnough, hShifted.cons chest⟩

/-- Nothing is lost when something is put into a chest. -/
theorem chestAdd_conserved (cfg : ChestConfig) (quests : Checks) (s : State (List MapChest))
    (x y id amount : Int) : ChestConserved s (final (chestAdd cfg quests x y id amount) s) := by
  unfold chestAdd
  rw [final_read]
  dsimp only
  split
  · exact .refl s
  case isFalse hTrading =>
    split
    · exact .refl s
    · split
      · exact .refl s
      · split
        · cases hPut : putIn cfg s.body x y id (toInt amount) s.store with
          | none => exact .refl s
          | some result =>
              obtain ⟨chests, n⟩ := result
              obtain ⟨hPos, hEnough, hShifted⟩ := putIn_shifted (isInt_toInt amount) hPut
              rw [hasItem_eq_amountOf (eq_false_of_ne_true hTrading)] at hEnough
              dsimp only
              rw [final_modify_bind]
              refine Shifted.conserved (i := toShort id) (n := n) ?_ fun x => ?_
              · rw [delItem_store]
                exact hShifted
              · rw [delItem_own quests (s.put chests) hPos hEnough, State.own_put]
        · exact .refl s

end Add

section Take

variable {cfg : ChestConfig} {quests : Checks} {self : Body} {x y id : Int}

/-- The chest is at the place, and something of the item in it can be held. -/
def Gives (cfg : ChestConfig) (self : Body) (x y id : Int) (chest : MapChest) : Prop :=
  (chest.x = x ∧ chest.y = y) ∧ 0 < canHoldItem cfg.toConfig self id (chest.hasItem id)

instance : DecidablePred (Gives cfg self x y id) := fun _ => inferInstanceAs (Decidable (_ ∧ _))

theorem isInt_hasItem (chest : MapChest) (item : Int) : IsInt (chest.hasItem item) := by
  unfold MapChest.hasItem
  cases chest.items.find? (·.id = item) with
  | none => exact (by decide : IsInt 0)
  | some it => exact it.isInt

theorem takeOut_cons (chest : MapChest) (rest : List MapChest) :
    takeOut cfg self x y id (chest :: rest) =
      if Gives cfg self x y (toShort id) chest then
        some ((chest.delSomeItem (toShort id)
            (canHoldItem cfg.toConfig self (toShort id) (chest.hasItem (toShort id)))).1 :: rest,
          canHoldItem cfg.toConfig self (toShort id) (chest.hasItem (toShort id)))
      else (takeOut cfg self x y id rest).map fun (chests, n) => (chest :: chests, n) := rfl

theorem takeOut_none {chests : List MapChest}
    (h : chests.find? (Gives cfg self x y (toShort id) ·) = none) :
    takeOut cfg self x y id chests = none := by
  induction chests with
  | nil => rfl
  | cons chest rest ih =>
      rw [find_cons] at h
      rw [takeOut_cons]
      split at h
      · cases h
      case isFalse hFirst =>
        rw [if_neg hFirst, ih h]
        rfl

/-- What is taken out is gone from the first chest that gives something. -/
theorem takeOut_some {chests : List MapChest} {chest : MapChest}
    (h : chests.find? (Gives cfg self x y (toShort id) ·) = some chest) :
    ∃ chests', takeOut cfg self x y id chests =
        some (chests', canHoldItem cfg.toConfig self (toShort id) (chest.hasItem (toShort id))) ∧
      Shifted (toShort id) (-canHoldItem cfg.toConfig self (toShort id) (chest.hasItem (toShort id)))
        chests chests' := by
  induction chests with
  | nil => cases h
  | cons first rest ih =>
      rw [find_cons] at h
      rw [takeOut_cons]
      split at h
      case isTrue hGives =>
        cases h
        refine ⟨_, if_pos hGives, .head fun x => ?_⟩
        rw [MapChest.delSomeItem_held hGives.2 (canHoldItem_le hGives.2)]
        split
        · omega
        · omega
      case isFalse hFirst =>
        obtain ⟨chests', hTaken, hShifted⟩ := ih h
        refine ⟨first :: chests', ?_, hShifted.cons first⟩
        rw [if_neg hFirst, hTaken]
        rfl

/-- The chest that is taken from gives only what fits into the inventory. -/
def ChestFits (cfg : ChestConfig) (s : State (List MapChest)) (x y id : Int) : Prop :=
  ∀ chest, s.store.find? (Gives cfg s.body x y (toShort id) ·) = some chest →
    Fits cfg.toConfig s.body.inventory (toShort id)
      (canHoldItem cfg.toConfig s.body (toShort id) (chest.hasItem (toShort id)))

/-- The character is next to the place, and there is a chest. -/
def ChestNear (cfg : ChestConfig) (self : Body) (x y : Int) : Prop :=
  pathLength self.x self.y x y ≤ 1 ∧ cfg.chestTile self.mapid x y = true

/-- Something is taken out exactly as far as it arrives. -/
theorem chestTake_conserved_iff (cfg : ChestConfig) (quests : Checks) (s : State (List MapChest))
    (x y id : Int) :
    ChestConserved s (final (chestTake cfg quests x y id) s) ↔
      (ChestNear cfg s.body x y → ChestFits cfg s x y id) := by
  unfold chestTake ChestNear
  rw [final_read]
  dsimp only
  split
  case isFalse hFar => exact iff_of_true (.refl s) fun h => absurd h hFar
  case isTrue hNear =>
    rw [imp_iff_right hNear, ChestFits]
    cases hFound : s.store.find? (Gives cfg s.body x y (toShort id) ·) with
    | none =>
        rw [takeOut_none hFound]
        exact iff_of_true (.refl s) fun chest hChest => by cases hChest
    | some chest =>
        obtain ⟨chests, hTaken, hShifted⟩ := takeOut_some hFound
        have hGives : Gives cfg s.body x y (toShort id) chest := of_found hFound
        have hHeld := isInt_hasItem chest (toShort id)
        have hLe := canHoldItem_le hGives.2
        have hPos := hGives.2
        rw [hTaken]
        simp only [Option.some.injEq, forall_eq']
        generalize canHoldItem cfg.toConfig s.body (toShort id) (chest.hasItem (toShort id)) = n at *
        have hInt : IsInt n := by
          unfold IsInt at *
          omega
        obtain ⟨hOthers, hOwn, hStore⟩ := addItem_own cfg.toConfig quests (s.put chests) hInt hPos
        rw [State.own_put, State.body_put] at hOwn
        rw [final_modify_bind, ← hOwn]
        constructor
        · intro h
          have hSum := h.sum (toShort id)
          rw [hStore, State.store_put, hShifted.heldIn, if_pos rfl] at hSum
          omega
        · intro hGain
          refine Shifted.conserved (i := toShort id) (n := -n) ?_ fun x => ?_
          · rw [hStore]
            exact hShifted
          · by_cases hx : x = toShort id
            · rw [if_pos hx, hx, hGain, Int.sub_neg]
            · rw [if_neg hx, hOthers x hx, State.own_put, Int.sub_zero]

end Take

section Requests

inductive ChestRequest
  | add (x y item amount : Int)
  | take (x y item : Int)
  deriving DecidableEq

def chestRequest (cfg : ChestConfig) (quests : Checks) : ChestRequest → Prog (List MapChest) Unit
  | .add x y item amount => chestAdd cfg quests x y item amount
  | .take x y item => chestTake cfg quests x y item

def ChestRequest.Held (cfg : ChestConfig) (s : State (List MapChest)) : ChestRequest → Prop
  | .add _ _ _ _ => True
  | .take x y item => ChestNear cfg s.body x y → ChestFits cfg s x y item

theorem chestRequest_conserved_iff (cfg : ChestConfig) (quests : Checks) (s : State (List MapChest))
    (request : ChestRequest) :
    ChestConserved s (final (chestRequest cfg quests request) s) ↔ request.Held cfg s := by
  cases request with
  | add x y item amount => exact iff_of_true (chestAdd_conserved cfg quests s x y item amount) trivial
  | take x y item => exact chestTake_conserved_iff cfg quests s x y item

def smallCellar : ChestConfig :=
  { smallWorld with
    maxChest := 1000
    lore := fun _ => false
    chestTile := fun _ x y => decide (x = 5 ∧ y = 6) }

/-- A chest with thirty pieces of an item. -/
def smallChest : MapChest := ⟨5, 6, [⟨.of 2 30, 0⟩], 0, 1000, 5⟩

/-- Thirty are taken out and only ten of them fit. -/
theorem full_stack_loses_items :
    ¬ChestConserved (beside (holding .npc [.of 2 90]) [smallChest])
      (final (chestRequest smallCellar idle (.take 5 6 2))
        (beside (holding .npc [.of 2 90]) [smallChest])) :=
  fun h => absurd (h.sum 2) (by decide)

end Requests

end Etheos.Stores
