import Etheos.General.Entries
import Etheos.Packet.Processor
import Etheos.Stores.Carried

/-! The items that lie on the maps. -/
namespace Etheos.Stores

open Characters CharacterItem General Entries

structure MapItem extends CharacterItem where
  uid : Int
  x : Int
  y : Int
  owner : Int
  unprotecttime : Int
  deriving DecidableEq

/-- The items of each map. -/
abbrev Ground := Int → List MapItem

structure GroundConfig extends Config where
  lore : Int → Bool
  maxDrop : Int
  dropDistance : Int
  jailMap : Int
  maxTile : Int
  maxMap : Int
  protectPlayerDrop : Int
  walkable : Int → Int → Int → Bool

namespace Ground

/-- The search for a free number starts again with every number that is taken. -/
def lowestFree (items : List MapItem) : Nat → Int → Int
  | 0, n => n
  | restarts + 1, n => if items.any (·.uid = n) then lowestFree items restarts (n + 1) else n

def generateItemID (items : List MapItem) : Int := lowestFree items items.length 1

/-- There is room on the tile and on the map. -/
def HasRoom (cfg : GroundConfig) (items : List MapItem) (x y : Int) : Prop :=
  ((items.filter fun item => item.x = x ∧ item.y = y).length : Int) < cfg.maxTile ∧
    (items.length : Int) < cfg.maxMap

instance (cfg : GroundConfig) (items : List MapItem) (x y : Int) :
    Decidable (HasRoom cfg items x y) := inferInstanceAs (Decidable (_ ∧ _))

/-- `Map::AddItem`. Without room the new item is returned and lies nowhere. -/
def addItem (cfg : GroundConfig) (new : MapItem) (items : List MapItem) : List MapItem :=
  if HasRoom cfg items new.x new.y then items ++ [{ new with uid := toShort (generateItemID items) }]
  else items

def getItem (uid : Int) (items : List MapItem) : Option MapItem := items.find? (·.uid = uid)

def lessened (amount : Int) (item : MapItem) : MapItem :=
  { item with toCharacterItem := .of item.id (item.amount - amount) }

def delSomeItem (uid amount : Int) (items : List MapItem) : List MapItem :=
  if amount < 0 then items
  else
    match getItem uid items with
    | none => items
    | some item =>
        if amount < item.amount then modifyFirst (·.uid = uid) (lessened amount) items
        else eraseFirst (·.uid = uid) items

/-- What lies there of an item. -/
def lying (id : Int) (items : List MapItem) : Int :=
  (items.map fun item => if item.id = id then item.amount else 0).sum

end Ground

section Handlers

variable (cfg : GroundConfig) (quests : Checks)

/-- The tile that is asked for; two bytes of 255 stand for the own one. -/
def landing (self : Body) (x y : UInt8) : Int × Int :=
  if x = 255 ∧ y = 255 then (self.x, self.y)
  else ((PacketProcessor.number x 254 254 254 : Int) % 256,
    (PacketProcessor.number y 254 254 254 : Int) % 256)

/-- A character with the player id `player`, at the time `now`. -/
def itemDrop (player now id amount : Int) (x y : UInt8) : Prog Ground Unit := do
  let s ← get
  let self := s.body
  let amount := min (toInt amount) cfg.maxDrop
  let (x, y) := landing self x y
  if self.trading then return ()
  else if self.nointeract then return ()
  else if cfg.lore id then return ()
  else if amount ≤ 0 then return ()
  else if cfg.dropDistance < pathLength x y self.x self.y then return ()
  else if ¬cfg.walkable self.mapid x y then return ()
  else if amount ≤ hasItem self (toShort id) false ∧ self.mapid ≠ cfg.jailMap then
    let new : MapItem :=
      { toCharacterItem := .of (toShort id) amount, uid := 0, x := x, y := y, owner := player
        unprotecttime := now + cfg.protectPlayerDrop }
    modify fun s => s.put (Function.update s.store self.mapid
      (Ground.addItem cfg new (s.store self.mapid)))
    discard (delItem quests (toShort id) amount)
  else return ()

def itemGet (player now uid : Int) : Prog Ground Unit := do
  let s ← get
  let self := s.body
  match Ground.getItem (toShort uid) (s.store self.mapid) with
  | none => return ()
  | some item =>
      if cfg.dropDistance < pathLength item.x item.y self.x self.y then return ()
      else if item.owner ≠ player ∧ now < item.unprotecttime then return ()
      else
        let taken := canHoldItem cfg.toConfig self item.id item.amount
        if 0 < taken then
          discard (Stores.addItem cfg.toConfig quests item.id taken)
          -- the quest check may have sent the character to another map
          modify fun s => s.put (Function.update s.store s.body.mapid
            (Ground.delSomeItem item.uid taken (s.store s.body.mapid)))
        else return ()

end Handlers

namespace Ground

section Lying

variable {cfg : GroundConfig} {items : List MapItem} {item : MapItem} {uid n : Int}

theorem lying_addItem {new : MapItem} (h : HasRoom cfg items new.x new.y) (id : Int) :
    lying id (addItem cfg new items) = lying id items + if id = new.id then new.amount else 0 := by
  rw [addItem, if_pos h, lying, sum_append_one, lying]
  exact congrArg _ (if_congr eq_comm rfl rfl)

theorem uid_of_found (h : getItem uid items = some item) : item.uid = uid :=
  of_found (p := fun item : MapItem => item.uid = uid) h

theorem delSomeItem_missing (h : getItem uid items = none) : delSomeItem uid n items = items := by
  unfold delSomeItem
  rw [h]
  split
  · rfl
  · rfl

/-- As much as is asked for is gone, if it lies there. -/
theorem delSomeItem_lying (h : getItem uid items = some item) (hPos : 0 < n) (hEnough : n ≤ item.amount)
    (id : Int) : lying id (delSomeItem uid n items) = lying id items - if id = item.id then n else 0 := by
  unfold delSomeItem lying
  rw [if_neg (by omega), h]
  dsimp only
  by_cases hLess : n < item.amount
  · have hExact : toInt (item.amount - n) = item.amount - n := by
      have hItem := item.isInt
      unfold IsInt at hItem
      exact IsInt.toInt_eq ⟨by omega, by omega⟩
    rw [if_pos hLess, sum_modifyFirst _ h, lessened, of_id, of_amount, hExact]
    by_cases hId : id = item.id
    · rw [if_pos hId.symm, if_pos hId.symm, if_pos hId]
      omega
    · rw [if_neg (Ne.symm hId), if_neg (Ne.symm hId), if_neg hId]
      omega
  · rw [if_neg hLess, sum_eraseFirst _ h]
    by_cases hId : id = item.id
    · rw [if_pos hId.symm, if_pos hId]
      omega
    · rw [if_neg (Ne.symm hId), if_neg hId]

/-- Something is missing afterwards. -/
theorem delSomeItem_ne (h : getItem uid items = some item) (hPos : 0 < n) :
    delSomeItem uid n items ≠ items := by
  unfold delSomeItem
  rw [if_neg (by omega), h]
  dsimp only
  split
  case isTrue hLess =>
    obtain ⟨before, after, hItems, hModified⟩ := modifyFirst_split h (lessened n)
    rw [hModified, hItems]
    intro hSame
    have hItem := (List.cons.inj (List.append_cancel_left hSame)).1
    have hAmount : toInt (item.amount - n) = item.amount := congrArg (·.amount) hItem
    have hBounds := item.isInt
    rw [IsInt.toInt_eq] at hAmount
    · omega
    · unfold IsInt at *
      omega
  case isFalse =>
    obtain ⟨before, after, hItems, hErased⟩ := eraseFirst_split h
    rw [hErased, hItems]
    intro hSame
    have hLength := congrArg List.length hSame
    simp at hLength

end Lying

/-- A number below the one that is found is taken. -/
theorem lowestFree_spec (items : List MapItem) (restarts : Nat) (n : Int) :
    (∀ k, n ≤ k → k < lowestFree items restarts n → ∃ item ∈ items, item.uid = k) ∧
      n ≤ lowestFree items restarts n ∧
        (lowestFree items restarts n = n + restarts ∨
          ∀ item ∈ items, item.uid ≠ lowestFree items restarts n) := by
  induction restarts generalizing n with
  | zero => exact ⟨fun k hLow hHigh => absurd hHigh (Int.not_lt.mpr hLow), Int.le_refl n, .inl (by simp [lowestFree])⟩
  | succ restarts ih =>
      unfold lowestFree
      split
      case isTrue hTaken =>
        obtain ⟨hBelow, hLe, hEnd⟩ := ih (n + 1)
        refine ⟨fun k hLow hHigh => ?_, by omega, hEnd.imp_left (by omega)⟩
        by_cases hFirst : k = n
        · obtain ⟨item, hItem, hUid⟩ := List.any_eq_true.mp hTaken
          exact ⟨item, hItem, hFirst ▸ of_decide_eq_true hUid⟩
        · exact hBelow k (by omega) hHigh
      case isFalse hFree =>
        refine ⟨fun k hLow hHigh => absurd hHigh (Int.not_lt.mpr hLow), Int.le_refl n, .inr ?_⟩
        intro item hItem hUid
        exact hFree (List.any_eq_true.mpr ⟨item, hItem, decide_eq_true hUid⟩)

/-- The number of a new item is not in use. -/
theorem generateItemID_fresh (items : List MapItem) :
    ∀ item ∈ items, item.uid ≠ generateItemID items := by
  obtain ⟨hBelow, -, hLast | hFree⟩ := lowestFree_spec items items.length 1
  · intro item hItem hUid
    let numbers : List Int := (List.range (items.length + 1)).map fun k : Nat => (1 + k : Int)
    have hNodup : numbers.Nodup :=
      List.nodup_range.map fun a b h => Int.ofNat.inj (Int.add_left_cancel h)
    have hSubset : numbers ⊆ items.map (·.uid) := by
      intro number hNumber
      obtain ⟨k, hk, rfl⟩ := List.mem_map.mp hNumber
      have hRange := List.mem_range.mp hk
      by_cases hEnd : k = items.length
      · exact List.mem_map.mpr ⟨item, hItem, by rw [hUid, generateItemID, hLast, hEnd]⟩
      · obtain ⟨other, hOther, hTaken⟩ := hBelow (1 + k) (by omega) (by omega)
        exact List.mem_map.mpr ⟨other, hOther, hTaken⟩
    have hLength := (List.subperm_of_subset hNodup hSubset).length_le
    have hCount : numbers.length = items.length + 1 := (List.length_map _).trans List.length_range
    rw [hCount, List.length_map] at hLength
    omega
  · exact hFree

end Ground

/-- So much of an item is put on the map, or nothing happens to what is carried and
what lies there. -/
def GroundMoved (item n : Int) (s s' : State Ground) : Prop :=
  (s'.store = s.store ∧ ∀ id, s'.own id = s.own id) ∨
    (∀ id, s'.own id = s.own id - if id = item then n else 0) ∧
    (∀ id, Ground.lying id (s'.store s.body.mapid) =
      Ground.lying id (s.store s.body.mapid) + if id = item then n else 0) ∧
    ∀ map, map ≠ s.body.mapid → s'.store map = s.store map

/-- The inventory and the map hold the same of every item together. -/
theorem GroundMoved.totals {item n : Int} {s s' : State Ground} (h : GroundMoved item n s s') (id : Int) :
    s'.own id + Ground.lying id (s'.store s.body.mapid) =
      s.own id + Ground.lying id (s.store s.body.mapid) := by
  obtain ⟨hStore, hOwn⟩ | ⟨hOwn, hLying, -⟩ := h
  · rw [hStore, hOwn]
  · rw [hOwn, hLying]
    omega

theorem GroundMoved.refl (item n : Int) (s : State Ground) : GroundMoved item n s s :=
  .inl ⟨rfl, fun _ => rfl⟩

section Moved

variable {s s' : State Ground} {item n gain : Int}
  (hOwn : ∀ id, s'.own id = s.own id + if id = item then gain else 0)

include hOwn

/-- Where all maps are as before, only what is carried counts. -/
theorem kept_moved_iff (hStore : s'.store = s.store) : GroundMoved item n s s' ↔ gain = 0 := by
  constructor
  · intro h
    have hTotal := h.totals item
    rw [hOwn, hStore, if_pos rfl] at hTotal
    omega
  · intro hGain
    refine .inl ⟨hStore, fun id => ?_⟩
    rw [hOwn, hGain, ite_self, Int.add_zero]

/-- Where less lies on the own map, so much must have arrived. -/
theorem taken_moved_iff
    (hHere : ∀ id, Ground.lying id (s'.store s.body.mapid) =
      Ground.lying id (s.store s.body.mapid) - if id = item then n else 0)
    (hOthers : ∀ map, map ≠ s.body.mapid → s'.store map = s.store map) :
    GroundMoved item (-n) s s' ↔ gain = n := by
  constructor
  · intro h
    have hTotal := h.totals item
    rw [hOwn, hHere, if_pos rfl, if_pos rfl] at hTotal
    omega
  · intro hGain
    refine .inr ⟨fun id => ?_, fun id => ?_, hOthers⟩
    · rw [hOwn, hGain]
      split
      · omega
      · omega
    · rw [hHere]
      split
      · omega
      · omega

end Moved

section Drop

variable {cfg : GroundConfig} {quests : Checks} {s : State Ground} {player now id amount : Int}
  {x y : UInt8}

/-- What is dropped of an item that there is enough of. -/
def dropped (cfg : GroundConfig) (amount : Int) : Int := min (toInt amount) cfg.maxDrop

/-- The checks of `Item_Drop` are passed. -/
def Drops (cfg : GroundConfig) (s : State Ground) (id amount : Int) (x y : UInt8) : Prop :=
  s.body.trading = false ∧ s.body.nointeract = false ∧ cfg.lore id = false ∧
    0 < dropped cfg amount ∧
    pathLength (landing s.body x y).1 (landing s.body x y).2 s.body.x s.body.y ≤ cfg.dropDistance ∧
    cfg.walkable s.body.mapid (landing s.body x y).1 (landing s.body x y).2 = true ∧
    dropped cfg amount ≤ hasItem s.body (toShort id) false ∧ s.body.mapid ≠ cfg.jailMap

theorem itemDrop_refused (h : ¬Drops cfg s id amount x y) :
    final (itemDrop cfg quests player now id amount x y) s = s := by
  unfold Drops dropped at h
  unfold itemDrop
  rw [final_read]
  dsimp only
  split
  · rfl
  case isFalse hTrading =>
    split
    · rfl
    case isFalse hInteract =>
      split
      · rfl
      case isFalse hLore =>
        split
        · rfl
        · split
          · rfl
          · split
            · rfl
            case isFalse hWalkable =>
              split
              case isTrue hEnough =>
                exact absurd ⟨eq_false_of_ne_true hTrading, eq_false_of_ne_true hInteract,
                  eq_false_of_ne_true hLore, by omega, by omega, by simpa using hWalkable, hEnough⟩ h
              · rfl

/-- The item that is put on the map. -/
def newItem (cfg : GroundConfig) (self : Body) (player now id amount : Int) (x y : UInt8) : MapItem :=
  { toCharacterItem := .of (toShort id) (dropped cfg amount), uid := 0, x := (landing self x y).1
    y := (landing self x y).2, owner := player, unprotecttime := now + cfg.protectPlayerDrop }

theorem itemDrop_drops (h : Drops cfg s id amount x y) :
    final (itemDrop cfg quests player now id amount x y) s =
      final (discard (delItem quests (toShort id) (dropped cfg amount)))
        (s.put (Function.update s.store s.body.mapid
          (Ground.addItem cfg (newItem cfg s.body player now id amount x y) (s.store s.body.mapid)))) := by
  obtain ⟨hTrading, hInteract, hLore, hPos, hNear, hWalkable, hEnough⟩ := h
  unfold dropped at hPos hEnough
  unfold itemDrop
  rw [final_read]
  dsimp only
  rw [hTrading, if_neg Bool.false_ne_true, hInteract, if_neg Bool.false_ne_true, hLore,
    if_neg Bool.false_ne_true, if_neg (by omega), if_neg (by omega), if_neg (not_not.mpr hWalkable),
    if_pos hEnough, final_modify_bind]
  rfl

/-- There is room for what is dropped. -/
def RoomFor (cfg : GroundConfig) (s : State Ground) (x y : UInt8) : Prop :=
  Ground.HasRoom cfg (s.store s.body.mapid) (landing s.body x y).1 (landing s.body x y).2

/-- What is dropped where there is no room is lost. -/
theorem itemDrop_moved_iff (cfg : GroundConfig) (quests : Checks) (s : State Ground)
    (player now id amount : Int) (x y : UInt8) :
    GroundMoved (toShort id) (dropped cfg amount) s
        (final (itemDrop cfg quests player now id amount x y) s) ↔
      (Drops cfg s id amount x y → RoomFor cfg s x y) := by
  by_cases hDrops : Drops cfg s id amount x y
  · rw [imp_iff_right hDrops, itemDrop_drops hDrops]
    obtain ⟨hTrading, -, -, hPos, -, -, hEnough, -⟩ := hDrops
    rw [hasItem_eq_amountOf hTrading] at hEnough
    generalize hGround : Function.update s.store s.body.mapid
      (Ground.addItem cfg (newItem cfg s.body player now id amount x y) (s.store s.body.mapid)) = ground
    have hHere : ground s.body.mapid = Ground.addItem cfg
        (newItem cfg s.body player now id amount x y) (s.store s.body.mapid) := by
      rw [← hGround, Function.update_self]
    have hOwn (x : Int) := delItem_own quests (s.put ground) hPos hEnough x
    simp only [State.own_put] at hOwn
    by_cases hRoom : Ground.HasRoom cfg (s.store s.body.mapid)
      (newItem cfg s.body player now id amount x y).x (newItem cfg s.body player now id amount x y).y
    · refine iff_of_true (.inr ⟨hOwn, fun x => ?_, fun map hMap => ?_⟩) hRoom
      · have hInt : IsInt (dropped cfg amount) := by
          have hAmount := isInt_toInt amount
          unfold IsInt dropped at *
          omega
        rw [delItem_store, State.store_put, hHere, Ground.lying_addItem hRoom, newItem, of_id, of_amount,
          hInt.toInt_eq]
      · rw [delItem_store, State.store_put, ← hGround, Function.update_of_ne hMap]
    · refine iff_of_false (fun h => ?_) hRoom
      have hTotal := h.totals (toShort id)
      rw [hOwn, if_pos rfl, delItem_store, State.store_put, hHere, Ground.addItem, if_neg hRoom] at hTotal
      omega
  · rw [itemDrop_refused hDrops]
    exact iff_of_true (.refl _ _ s) fun h => absurd h hDrops

end Drop

section Get

variable {cfg : GroundConfig} {quests : Checks} {s : State Ground} {player now uid : Int}
  {item : MapItem}

/-- What is picked up of an item. -/
def picked (cfg : GroundConfig) (s : State Ground) (item : MapItem) : Int :=
  canHoldItem cfg.toConfig s.body item.id item.amount

/-- The item is found and the checks of `Item_Get` are passed. -/
def PicksUp (cfg : GroundConfig) (s : State Ground) (player now uid : Int) (item : MapItem) : Prop :=
  Ground.getItem (toShort uid) (s.store s.body.mapid) = some item ∧
    pathLength item.x item.y s.body.x s.body.y ≤ cfg.dropDistance ∧
      (item.owner = player ∨ item.unprotecttime ≤ now) ∧ 0 < picked cfg s item

theorem itemGet_refused (h : ∀ item, ¬PicksUp cfg s player now uid item) :
    final (itemGet cfg quests player now uid) s = s := by
  unfold itemGet
  rw [final_read]
  dsimp only
  cases hFound : Ground.getItem (toShort uid) (s.store s.body.mapid) with
  | none => rfl
  | some item =>
      dsimp only
      split
      · rfl
      · split
        · rfl
        case isFalse hOwner =>
          split
          case isTrue hPos =>
            refine absurd ⟨hFound, by omega, ?_, hPos⟩ (h item)
            by_cases hMine : item.owner = player
            · exact .inl hMine
            · exact .inr (Int.not_lt.mp fun hLater => hOwner ⟨hMine, hLater⟩)
          · rfl

/-- Takes the item from the map that the character is on. -/
def pickFrom (uid taken : Int) : Prog Ground Unit :=
  modify fun s => s.put (Function.update s.store s.body.mapid
    (Ground.delSomeItem uid taken (s.store s.body.mapid)))

theorem itemGet_picksUp (h : PicksUp cfg s player now uid item) :
    final (itemGet cfg quests player now uid) s =
      final (discard (addItem cfg.toConfig quests item.id (picked cfg s item)) >>= fun _ =>
        pickFrom item.uid (picked cfg s item)) s := by
  obtain ⟨hFound, hNear, hOwner, hPos⟩ := h
  have hAllowed : ¬(item.owner ≠ player ∧ now < item.unprotecttime) := by
    obtain hMine | hOver := hOwner
    · exact fun hOther => hOther.1 hMine
    · exact fun hOther => absurd hOther.2 (Int.not_lt.mpr hOver)
  unfold picked at hPos
  unfold itemGet
  rw [final_read]
  dsimp only
  rw [hFound]
  dsimp only
  rw [if_neg (by omega), if_neg hAllowed, if_pos hPos]
  rfl

/-- What is picked up arrives whole, or nothing of it does and it stays where it is. -/
def GroundGives (cfg : GroundConfig) (quests : Checks) (s : State Ground) (item : MapItem) : Prop :=
  ∃ inventory, received cfg.toConfig s.body.inventory item.id (picked cfg s item) = some inventory ∧
    if (s.carry inventory).Throws quests then
      Full cfg.toConfig s.body.inventory item.id (picked cfg s item)
    else if ((s.carry inventory).checked quests).body.mapid = s.body.mapid then
      Fits cfg.toConfig s.body.inventory item.id (picked cfg s item)
    else
      Ground.getItem item.uid (s.store ((s.carry inventory).checked quests).body.mapid) = none ∧
        Full cfg.toConfig s.body.inventory item.id (picked cfg s item)

theorem itemGet_moved_iff (h : PicksUp cfg s player now uid item) :
    GroundMoved item.id (-picked cfg s item) s (final (itemGet cfg quests player now uid) s) ↔
      GroundGives cfg quests s item := by
  rw [itemGet_picksUp h, addItem_final]
  obtain ⟨hFound, -, -, hPos⟩ := h
  have hUid : item.uid = toShort uid := Ground.uid_of_found hFound
  have hLe : picked cfg s item ≤ item.amount := canHoldItem_le hPos
  have hInt : IsInt (picked cfg s item) := by
    have hItem := item.isInt
    unfold IsInt at *
    omega
  rw [← hUid] at hFound
  unfold GroundGives
  generalize picked cfg s item = taken at *
  cases hReceived : received cfg.toConfig s.body.inventory item.id taken with
  | none =>
      refine iff_of_false (fun hMoved => ?_) fun ⟨inventory, hSome, _⟩ => by cases hSome
      have hTotal := hMoved.totals item.id
      rw [pickFrom, final_modify, State.own_put, State.store_put, Function.update_self,
        Ground.delSomeItem_lying hFound hPos hLe, if_pos rfl] at hTotal
      omega
  | some inventory =>
      obtain ⟨hOthers, hFits, hFull⟩ := received_total hInt hPos hReceived
      have hGain (id : Int) : ((s.carry inventory).checked quests).own id =
          s.own id + if id = item.id then total item.id inventory - total item.id s.body.inventory else 0 := by
        rw [State.own_checked, State.own_carry]
        split
        case isTrue hId =>
          rw [hId]
          omega
        case isFalse hId =>
          rw [hOthers id hId]
          omega
      simp only [Option.some.injEq, exists_eq_left']
      split
      case isTrue hThrows =>
        rw [kept_moved_iff hGain rfl, ← hFull]
        omega
      case isFalse hQuiet =>
        have hStore : ((s.carry inventory).checked quests).store = s.store := rfl
        unfold pickFrom
        rw [final_modify]
        generalize (s.carry inventory).checked quests = after at *
        have hPut (ground : Ground) (id : Int) : (after.put ground).own id = _ := hGain id
        rw [hStore]
        by_cases hMap : after.body.mapid = s.body.mapid
        · rw [if_pos hMap, hMap, taken_moved_iff (hPut _), ← hFits]
          · omega
          · intro id
            rw [State.store_put, Function.update_self, Ground.delSomeItem_lying hFound hPos hLe]
          · intro map hOther
            rw [State.store_put, Function.update_of_ne hOther]
        · rw [if_neg hMap]
          cases hElse : Ground.getItem item.uid (s.store after.body.mapid) with
          | none =>
              rw [Ground.delSomeItem_missing hElse, Function.update_eq_self, kept_moved_iff (hPut _) rfl,
                ← hFull, eq_self_iff_true, true_and]
              omega
          | some other =>
              have hNe := Ground.delSomeItem_ne hElse hPos
              refine iff_of_false (fun hMoved => hNe ?_) fun hNone => by cases hNone.1
              have hThere : (Function.update s.store after.body.mapid (Ground.delSomeItem item.uid taken
                  (s.store after.body.mapid))) after.body.mapid = s.store after.body.mapid := by
                obtain ⟨hSame, -⟩ | ⟨-, -, hOthersSame⟩ := hMoved
                · exact congrFun hSame after.body.mapid
                · exact hOthersSame after.body.mapid hMap
              rwa [Function.update_self] at hThere

end Get

section Requests

inductive GroundRequest
  | drop (player now item amount : Int) (x y : UInt8)
  | get (player now uid : Int)
  deriving DecidableEq

def groundRequest (cfg : GroundConfig) (quests : Checks) : GroundRequest → Prog Ground Unit
  | .drop player now item amount x y => itemDrop cfg quests player now item amount x y
  | .get player now uid => itemGet cfg quests player now uid

/-- The item and how much of it a request moves to the map, if it is carried out. -/
def GroundRequest.moved (cfg : GroundConfig) (s : State Ground) : GroundRequest → Int × Int
  | .drop _ _ item amount _ _ => (toShort item, dropped cfg amount)
  | .get _ _ uid =>
      match Ground.getItem (toShort uid) (s.store s.body.mapid) with
      | none => (0, 0)
      | some item => (item.id, -picked cfg s item)

def GroundRequest.Held (cfg : GroundConfig) (quests : Checks) (s : State Ground) :
    GroundRequest → Prop
  | .drop _ _ item amount x y => Drops cfg s item amount x y → RoomFor cfg s x y
  | .get player now uid => ∀ item, PicksUp cfg s player now uid item → GroundGives cfg quests s item

theorem groundRequest_moved_iff (cfg : GroundConfig) (quests : Checks) (s : State Ground)
    (request : GroundRequest) :
    GroundMoved (request.moved cfg s).1 (request.moved cfg s).2 s
        (final (groundRequest cfg quests request) s) ↔
      request.Held cfg quests s := by
  cases request with
  | drop player now item amount x y => exact itemDrop_moved_iff cfg quests s player now item amount x y
  | get player now uid =>
      change GroundMoved _ _ s (final (itemGet cfg quests player now uid) s) ↔
        ∀ item, PicksUp cfg s player now uid item → GroundGives cfg quests s item
      by_cases hPicks : ∃ item, PicksUp cfg s player now uid item
      · obtain ⟨item, hItem⟩ := hPicks
        have hMoved : (GroundRequest.get player now uid).moved cfg s =
            (item.id, -picked cfg s item) := by
          simp only [GroundRequest.moved, hItem.1]
        rw [hMoved, itemGet_moved_iff hItem]
        constructor
        · intro hGives other hOther
          have hSame := hItem.1.symm.trans hOther.1
          cases hSame
          exact hGives
        · exact fun hGives => hGives item hItem
      · have hNone : ∀ item, ¬PicksUp cfg s player now uid item := not_exists.mp hPicks
        rw [itemGet_refused hNone]
        exact iff_of_true (.refl _ _ s) fun item hItem => absurd hItem (hNone item)

/-- One item on a tile. -/
def smallGround : GroundConfig :=
  { smallWorld with
    lore := fun _ => false
    maxDrop := 100
    dropDistance := 2
    jailMap := 9
    maxTile := 1
    maxMap := 400
    protectPlayerDrop := 5
    walkable := fun _ _ _ => true }

/-- Item three lies on the tile, and nothing else on any map. -/
def littered : Ground := fun map => if map = 1 then [⟨.of 3 1, 1, 5, 5, 0, 0⟩] else []

/-- Ten pieces are dropped on a full tile and are gone. -/
theorem full_tile_loses_items :
    ¬GroundMoved 2 10 (beside (holding .npc [.of 2 30]) littered)
      (final (groundRequest smallGround idle (.drop 7 0 2 10 255 255))
        (beside (holding .npc [.of 2 30]) littered)) :=
  fun h => absurd (h.totals 2) (by decide)

end Requests

end Etheos.Stores
