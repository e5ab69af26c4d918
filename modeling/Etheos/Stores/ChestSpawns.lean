import Mathlib.Data.Rat.Floor
import Etheos.General.Run
import Etheos.Stores.Chest

/-! The spawns of the chests of a map. Items that are spawned take a slot each, and
items of users share the entries that are left. -/
namespace Etheos.ChestSpawns

open Characters CharacterItem General Entries Stores

/-- `Map_Chest_Spawn`. The times are in seconds. -/
structure MapChestSpawn where
  item : CharacterItem
  slot : Int
  time : ℚ
  lastTaken : ℚ
  spawnRandom : ℚ
  deriving DecidableEq

/-- `Map_Chest` with its spawns. -/
structure Chest extends MapChest where
  spawns : List MapChestSpawn
  deriving DecidableEq

/-- The options for chests. -/
structure Limits where
  maxChest : Int
  chestSlots : Int
  isInt : IsInt chestSlots
  chestSpawnRandomization : ℚ
  /-- `ChestSpawnRandomization` ends with `%`. -/
  spawnRandomIsPct : Bool

/-- `util::rand` for the value of `long_rand` and an `int` range. -/
def rand (draw : UInt32) (min max : Int) : Int :=
  (draw.toNat * (max - min + 1) + min * 2 ^ 32).tdiv (2 ^ 32)

/-- `util::rand` for a `double` range. -/
def randDouble (draw : UInt32) (min max : ℚ) : ℚ := draw.toNat / 2 ^ 32 * (max - min) + min

/-- The random numbers for one slot: which of the spawns it is, and how long until the next. -/
structure Draw where
  choice : UInt32
  random : UInt32

/-- The time of the next spawn is set. -/
def MapChestSpawn.wait (limits : Limits) (random : UInt32) (spawn : MapChestSpawn) : MapChestSpawn :=
  let spawnModifier := randDouble random 0 limits.chestSpawnRandomization
  { spawn with spawnRandom := if limits.spawnRandomIsPct then spawnModifier * spawn.time else spawnModifier }

namespace Chest

variable (limits : Limits)

def addItem (item : CharacterItem) (slot : Int) (self : Chest) : Chest × Int :=
  ({ self with toMapChest := (self.toMapChest.addItem item.id item.amount slot).1 },
    (self.toMapChest.addItem item.id item.amount slot).2)

/-- `spawn.last_taken = current_time` for the spawns of a slot. -/
def taken (slot : Int) (now : ℚ) (self : Chest) : List MapChestSpawn :=
  if slot ≠ 0 then
    self.spawns.map fun spawn => if spawn.slot = slot then { spawn with lastTaken := now } else spawn
  else self.spawns

def delItem (item : Int) (now : ℚ) (self : Chest) : Chest × Int :=
  match self.items.find? (·.id = item) with
  | none => (self, 0)
  | some it =>
      ({ self with
          toMapChest := (self.toMapChest.delItem item).1
          spawns := self.taken it.slot now },
        (self.toMapChest.delItem item).2)

def delSomeItem (item amount : Int) (now : ℚ) (self : Chest) : Chest × Int :=
  match self.items.find? (·.id = item) with
  | none => (self, 0)
  | some it =>
      if amount < it.amount then
        ({ self with
            toMapChest := (self.toMapChest.delSomeItem item amount).1
            spawns := self.taken it.slot now },
          (self.toMapChest.delSomeItem item amount).2)
      else self.delItem item now

/-- No item is in the slot. -/
def Free (slot : Int) (self : Chest) : Prop := ∀ it ∈ self.items, it.slot ≠ slot

instance (slot : Int) (self : Chest) : Decidable (self.Free slot) :=
  inferInstanceAs (Decidable (∀ it ∈ self.items, it.slot ≠ slot))

/-- The time of the spawn is over, and its slot is not used. -/
def Due (now : ℚ) (spawn : MapChestSpawn) (self : Chest) : Prop :=
  spawn.lastTaken + spawn.spawnRandom + spawn.time < now ∧ self.Free spawn.slot

instance (now : ℚ) (spawn : MapChestSpawn) (self : Chest) : Decidable (self.Due now spawn) :=
  inferInstanceAs (Decidable (_ ∧ _))

/-- `spawns[slot]` of the pass, with the places of the spawns in the list. -/
def slotSpawns (now : ℚ) (slot : Nat) (self : Chest) : List (MapChestSpawn × Nat) :=
  self.spawns.zipIdx.filter fun spawn => self.Due now spawn.1 ∧ spawn.1.slot - 1 = slot

/-- One of the spawns for a slot is picked. -/
def spawnSlot (draw : Draw) (slotSpawns : List (MapChestSpawn × Nat)) (self : Chest) : Chest :=
  match slotSpawns[(rand draw.choice 0 (slotSpawns.length - 1)).toNat]? with
  | none => self
  | some (spawn, i) =>
      { (self.addItem spawn.item spawn.slot).1 with spawns := self.spawns.modify i (·.wait limits draw.random) }

/-- The loop over the slots, with the spawns that were due at its start. -/
def spawnSlots (now : ℚ) (draws : Nat → Draw) (self start : Chest) (slots : List Nat) : Chest :=
  slots.foldl (fun chest slot => chest.spawnSlot limits (draws slot) (start.slotSpawns now slot)) self

/-- What `map_spawn_chests` does to one chest. -/
def spawnPass (now : ℚ) (draws : Nat → Draw) (self : Chest) : Chest :=
  self.spawnSlots limits now draws self (List.range self.slots.toNat)

end Chest

/-- A spawn of a map file. Its amount is not zero. -/
structure SpawnRecord where
  x : Int
  y : Int
  slot : Nat
  item : CharacterItem
  time : Int
  /-- The random number for `spawn_random`. -/
  random : UInt32

section Load

variable (limits : Limits)

/-- A chest without spawns. -/
def emptyChest (x y : Int) : Chest := ⟨⟨x, y, [], 0, limits.maxChest, limits.chestSlots⟩, []⟩

def SpawnRecord.spawn (now : ℚ) (record : SpawnRecord) : MapChestSpawn :=
  MapChestSpawn.wait limits record.random
    { item := record.item, slot := record.slot + 1, time := record.time * 60, lastTaken := now, spawnRandom := 0 }

def Chest.addSpawn (now : ℚ) (record : SpawnRecord) (self : Chest) : Chest :=
  { self with
    spawns := self.spawns ++ [record.spawn limits now]
    slots := max self.slots (record.slot + 1) }

/-- The chests that `Map::Load` makes. A spawn goes to the first chest at its place. -/
def load (now : ℚ) (tiles : List (Int × Int)) (records : List SpawnRecord) : List Chest :=
  records.foldl
    (fun chests record =>
      modifyFirst (fun chest : Chest => chest.x = record.x ∧ chest.y = record.y)
        (·.addSpawn limits now record) chests)
    (tiles.map fun tile => emptyChest limits tile.1 tile.2)

end Load

/-- What happens to the chests of a map. What `Chest_Take` takes out is more than zero. -/
inductive Op
  | addItem (chest : Nat) (item : CharacterItem)
  | delItem (chest : Nat) (item : Int) (now : ℚ)
  | take (chest : Nat) (item taken : Int) (now : ℚ)
  | spawnChests (now : ℚ) (draws : Nat → Nat → Draw)

def step (limits : Limits) (chests : List Chest) : Op → Option (List Chest)
  | .addItem chest item => some (chests.modify chest fun self => (self.addItem item 0).1)
  | .delItem chest item now => some (chests.modify chest fun self => (self.delItem item now).1)
  | .take chest item taken now =>
      some (if 0 < taken then chests.modify chest fun self => (self.delSomeItem item taken now).1 else chests)
  | .spawnChests now draws => some (chests.mapIdx fun i self => self.spawnPass limits now (draws i))

/-- The slots of spawned items in which there is one. -/
def Chest.occupied (self : Chest) : List Int := (self.items.map (·.slot)).filter (· ≠ 0)

/-- A chest as it should be. -/
structure Proper (limits : Limits) (chest : Chest) : Prop where
  size : chest.items.length ≤ limits.chestSlots
  amounts : ∀ it ∈ chest.items, 1 ≤ it.amount ∧ it.amount ≤ limits.maxChest
  unique : chest.occupied.Nodup
  reserved : chest.userItems + chest.slots ≤ limits.chestSlots
  /-- What is spawned into a free slot has room. -/
  room : ∀ spawn ∈ chest.spawns, chest.Free spawn.slot → chest.items.length < limits.chestSlots

/-- All chests are as they should be that have no more slots than `ChestSlots`. -/
def AllProper (limits : Limits) (chests : List Chest) : Prop :=
  ∀ chest ∈ chests, chest.slots ≤ limits.chestSlots → Proper limits chest

/-- A part of a spawned item is taken out, while users fill all entries that are not kept
for spawned ones. What stays is a user's. -/
def Chest.Leaves (limits : Limits) (item taken : Int) (self : Chest) : Prop :=
  self.slots ≤ limits.chestSlots ∧ limits.chestSlots ≤ self.userItems + self.slots ∧ 0 < taken ∧
    ∃ it, self.items.find? (·.id = item) = some it ∧ it.slot ≠ 0 ∧ taken < it.amount

def TakesReserved (limits : Limits) (chests : List Chest) : Op → Prop
  | .take chest item taken _ => ∃ self, chests[chest]? = some self ∧ self.Leaves limits item taken
  | .addItem _ _ | .delItem _ _ _ | .spawnChests _ _ => False

section Kept

variable {limits : Limits} {chest : Chest}

/-- What all operations but the bad ones keep of a chest. -/
structure Kept (limits : Limits) (chest : Chest) : Prop where
  maxchest : chest.maxchest = limits.maxChest
  chestslots : chest.chestslots = limits.chestSlots
  slots : 0 ≤ chest.slots
  spawnSlots : ∀ spawn ∈ chest.spawns, 1 ≤ spawn.slot ∧ spawn.slot ≤ chest.slots
  amounts : ∀ it ∈ chest.items, 1 ≤ it.amount ∧ it.amount ≤ limits.maxChest
  unique : chest.occupied.Nodup
  range : ∀ slot ∈ chest.occupied, 1 ≤ slot ∧ slot ≤ chest.slots
  reserved : chest.userItems + chest.slots ≤ limits.chestSlots

theorem userItems_eq (self : MapChest) : self.userItems = ((self.items.map (·.slot)).filter (· = 0)).length := by
  simp [MapChest.userItems, List.filter_map, Function.comp_def]

/-- Every entry is a user's or in a slot. -/
theorem length_items (chest : Chest) : (chest.items.length : Int) = chest.userItems + chest.occupied.length := by
  have hSplit := List.length_eq_length_filter_add (l := chest.items.map (·.slot)) (· = 0)
  rw [List.length_map] at hSplit
  rw [userItems_eq, Chest.occupied, hSplit]
  simp

theorem free_iff {slot : Int} (hSlot : slot ≠ 0) : chest.Free slot ↔ slot ∉ chest.occupied := by
  simp [Chest.Free, Chest.occupied, hSlot]

/-- The slots of spawned items keep one entry each. -/
theorem Kept.room (h : Kept limits chest) {slot : Int} (hSlot : 1 ≤ slot ∧ slot ≤ chest.slots)
    (hFree : chest.Free slot) : chest.items.length < limits.chestSlots := by
  have hPlaces := length_places_lt h.unique h.range hSlot ((free_iff (by omega)).mp hFree)
  have hReserved := h.reserved
  rw [length_items]
  omega

theorem Kept.proper (h : Kept limits chest) : Proper limits chest where
  size := by
    have hPlaces := length_places_le h.unique h.range h.slots
    have hReserved := h.reserved
    rw [length_items]
    omega
  amounts := h.amounts
  unique := h.unique
  reserved := h.reserved
  room spawn hSpawn hFree := h.room (h.spawnSlots spawn hSpawn) hFree

/-- Changes of the items that leave the slots alone. -/
theorem Kept.sameSlots (h : Kept limits chest) {items : List MapChestItem}
    (hSlots : items.map (·.slot) = chest.items.map (·.slot))
    (hAmounts : ∀ it ∈ items, 1 ≤ it.amount ∧ it.amount ≤ limits.maxChest) :
    Kept limits { chest with items } := by
  have hOccupied : Chest.occupied { chest with items } = chest.occupied := by
    rw [Chest.occupied, hSlots, Chest.occupied]
  have hUsers : MapChest.userItems { chest.toMapChest with items } = chest.userItems := by
    rw [userItems_eq, userItems_eq, hSlots]
  exact
    { h with
      amounts := hAmounts
      unique := hOccupied ▸ h.unique
      range := hOccupied ▸ h.range
      reserved := hUsers ▸ h.reserved }

/-- Fewer items. -/
theorem Kept.fewer (h : Kept limits chest) {items : List MapChestItem} (hSublist : items.Sublist chest.items) :
    Kept limits { chest with items } := by
  have hOccupied : (Chest.occupied { chest with items }).Sublist chest.occupied :=
    (hSublist.map _).filter _
  have hUsers : MapChest.userItems { chest.toMapChest with items } ≤ chest.userItems :=
    Int.ofNat_le.mpr (hSublist.filter _).length_le
  exact
    { h with
      amounts := fun it hIt => h.amounts it (hSublist.subset hIt)
      unique := h.unique.sublist hOccupied
      range := fun slot hSlot => h.range slot (hOccupied.subset hSlot)
      reserved := Int.le_trans (Int.add_le_add_right hUsers _) h.reserved }

/-- Other times of the spawns. -/
theorem Kept.withSpawns (h : Kept limits chest) {spawns : List MapChestSpawn}
    (hSpawns : spawns.map (·.slot) = chest.spawns.map (·.slot)) : Kept limits { chest with spawns } :=
  { h with
    spawnSlots := fun spawn hSpawn => by
      have hMem : spawn.slot ∈ spawns.map (·.slot) := List.mem_map_of_mem hSpawn
      rw [hSpawns] at hMem
      obtain ⟨old, hOld, hSlot⟩ := List.mem_map.mp hMem
      exact hSlot ▸ h.spawnSlots old hOld }

theorem Kept.append_user (h : Kept limits chest) {it : MapChestItem} (hSlot : it.slot = 0)
    (hAmount : 1 ≤ it.amount ∧ it.amount ≤ limits.maxChest)
    (hRoom : chest.userItems + chest.slots < limits.chestSlots) :
    Kept limits { chest with items := chest.items ++ [it] } := by
  have hOccupied : Chest.occupied { chest with items := chest.items ++ [it] } = chest.occupied := by
    simp [Chest.occupied, hSlot]
  have hUsers : MapChest.userItems { chest.toMapChest with items := chest.items ++ [it] } = chest.userItems + 1 := by
    simp [MapChest.userItems, hSlot]
  exact
    { h with
      amounts := List.forall_mem_append.mpr ⟨h.amounts, List.forall_mem_singleton.mpr hAmount⟩
      unique := hOccupied ▸ h.unique
      range := hOccupied ▸ h.range
      reserved := by
        rw [hUsers]
        dsimp only
        omega }

theorem Kept.cons_spawned (h : Kept limits chest) {it : MapChestItem}
    (hSlot : 1 ≤ it.slot ∧ it.slot ≤ chest.slots) (hFree : chest.Free it.slot)
    (hAmount : 1 ≤ it.amount ∧ it.amount ≤ limits.maxChest) :
    Kept limits { chest with items := it :: chest.items } := by
  have hNonzero : it.slot ≠ 0 := by omega
  have hOccupied : Chest.occupied { chest with items := it :: chest.items } = it.slot :: chest.occupied := by
    simp [Chest.occupied, hNonzero]
  have hUsers : MapChest.userItems { chest.toMapChest with items := it :: chest.items } = chest.userItems := by
    simp [MapChest.userItems, hNonzero]
  exact
    { h with
      amounts := List.forall_mem_cons.mpr ⟨hAmount, h.amounts⟩
      unique := hOccupied ▸ List.nodup_cons.mpr ⟨(free_iff hNonzero).mp hFree, h.unique⟩
      range := hOccupied ▸ List.forall_mem_cons.mpr ⟨hSlot, h.range⟩
      reserved := hUsers ▸ h.reserved }

theorem userItems_released {before after : List MapChestItem} {it it' : MapChestItem}
    (hItems : chest.items = before ++ it :: after) (hSlot : it.slot ≠ 0) (hUser : it'.slot = 0) :
    MapChest.userItems { chest.toMapChest with items := before ++ it' :: after } = chest.userItems + 1 := by
  simp [MapChest.userItems, hItems, hSlot, hUser]
  omega

/-- A spawned item becomes a user's. -/
theorem Kept.released (h : Kept limits chest) {before after : List MapChestItem} {it it' : MapChestItem}
    (hItems : chest.items = before ++ it :: after) (hSlot : it.slot ≠ 0) (hUser : it'.slot = 0)
    (hAmount : 1 ≤ it'.amount ∧ it'.amount ≤ limits.maxChest)
    (hRoom : chest.userItems + chest.slots < limits.chestSlots) :
    Kept limits { chest with items := before ++ it' :: after } := by
  have hOccupied : (Chest.occupied { chest with items := before ++ it' :: after }).Sublist chest.occupied := by
    simp [Chest.occupied, hItems, hSlot, hUser]
  have hUsers := userItems_released hItems hSlot hUser
  have hAmounts := h.amounts
  rw [hItems, List.forall_mem_append, List.forall_mem_cons] at hAmounts
  exact
    { h with
      amounts := List.forall_mem_append.mpr ⟨hAmounts.1, List.forall_mem_cons.mpr ⟨hAmount, hAmounts.2.2⟩⟩
      unique := h.unique.sublist hOccupied
      range := fun slot hMem => h.range slot (hOccupied.subset hMem)
      reserved := by
        rw [hUsers]
        dsimp only
        omega }

end Kept

section Steps

variable {limits : Limits} {chest : Chest}

theorem Kept.isInt (h : Kept limits chest) : IsInt (chest.userItems + chest.slots) := by
  have hReserved := h.reserved
  have hSlots := h.slots
  have hMax := limits.isInt
  have hUsers : 0 ≤ chest.userItems := Int.natCast_nonneg _
  unfold IsInt at *
  omega

theorem addItem_kept (h : Kept limits chest) (item : CharacterItem) {slot : Int}
    (hSlot : slot ≠ 0 → (1 ≤ slot ∧ slot ≤ chest.slots) ∧ chest.Free slot) :
    Kept limits (chest.addItem item slot).1 := by
  unfold Chest.addItem
  obtain hFull | ⟨hPos, -, it, hFound, hMin, hMax, hGrown⟩ | ⟨hPos, rfl, -, hRoom, hUser, hNew⟩ |
      ⟨hPos, hSpawned, hRoom, hNew⟩ := chest.toMapChest.addItem_cases item.id item.amount slot
  · rw [hFull]
    exact h
  · have hOld := h.amounts it (List.mem_of_find?_eq_some hFound)
    have hSum := toInt_add it.isInt item.isInt hPos hMin
    rw [hGrown]
    refine h.sameSlots (map_modifyFirst _ fun _ _ => rfl) (forall_modifyFirst_of_found hFound h.amounts ?_)
    rw [h.maxchest] at hMax
    rw [MapChest.grown, of_amount]
    omega
  · have hAmount := hRoom.2
    rw [MapChest.HasUserRoom, h.isInt.toInt_eq, h.chestslots] at hUser
    rw [h.maxchest] at hAmount
    rw [hNew]
    refine h.append_user rfl ?_ hUser
    rw [of_amount, item.isInt.toInt_eq]
    omega
  · have hAmount := hRoom.2
    rw [h.maxchest] at hAmount
    rw [hNew]
    refine h.cons_spawned (hSlot hSpawned).1 (hSlot hSpawned).2 ?_
    rw [of_amount, item.isInt.toInt_eq]
    omega

theorem taken_slots (chest : Chest) (slot : Int) (now : ℚ) :
    (chest.taken slot now).map (·.slot) = chest.spawns.map (·.slot) := by
  unfold Chest.taken
  split
  · rw [List.map_map]
    refine List.map_congr_left fun spawn _ => ?_
    show (ite _ _ _ : MapChestSpawn).slot = spawn.slot
    split
    · rfl
    · rfl
  · rfl

theorem delItem_kept (h : Kept limits chest) (item : Int) (now : ℚ) : Kept limits (chest.delItem item now).1 := by
  unfold Chest.delItem MapChest.delItem
  cases chest.items.find? (·.id = item) with
  | none => exact h
  | some it => exact (h.withSpawns (taken_slots chest it.slot now)).fewer (eraseFirst_sublist _ _)

theorem delSomeItem_kept (h : Kept limits chest) (hSlots : chest.slots ≤ limits.chestSlots) {item taken : Int}
    (hPos : 0 < taken) (hGood : ¬chest.Leaves limits item taken) (now : ℚ) :
    Kept limits (chest.delSomeItem item taken now).1 := by
  unfold Chest.delSomeItem MapChest.delSomeItem
  cases hFound : chest.items.find? (·.id = item) with
  | none => exact h
  | some it =>
      dsimp only
      split
      case isFalse => exact delItem_kept h item now
      case isTrue hLess =>
        have hOld := h.amounts it (List.mem_of_find?_eq_some hFound)
        have hInt : IsInt (it.amount - taken) := by
          have hItem := it.isInt
          unfold IsInt at *
          omega
        have hAmount : 1 ≤ (MapChest.lessened taken it).amount ∧
            (MapChest.lessened taken it).amount ≤ limits.maxChest := by
          rw [MapChest.lessened, of_amount, hInt.toInt_eq]
          omega
        have hTimes := h.withSpawns (taken_slots chest it.slot now)
        obtain ⟨before, after, hItems, hModified⟩ := modifyFirst_split hFound (MapChest.lessened taken)
        dsimp only
        by_cases hSlot : it.slot = 0
        · refine hTimes.sameSlots ?_ (forall_modifyFirst_of_found hFound h.amounts hAmount)
          rw [hModified, hItems, List.map_append, List.map_append, List.map_cons, List.map_cons, hSlot]
          rfl
        · have hRoom : chest.userItems + chest.slots < limits.chestSlots := by
            by_contra hFull
            exact hGood ⟨hSlots, by omega, hPos, it, hFound, hSlot, hLess⟩
          rw [hModified]
          exact hTimes.released hItems hSlot rfl hAmount hRoom

end Steps

section Pass

variable {limits : Limits} {chest : Chest}

theorem rand_bounds (draw : UInt32) {n : Int} (hn : 0 ≤ n) : 0 ≤ rand draw 0 n ∧ rand draw 0 n ≤ n := by
  have hDraw : (draw.toNat : Int) < 2 ^ 32 := by exact_mod_cast draw.toNat_lt
  have hLess : (draw.toNat : Int) * (n + 1) < 2 ^ 32 * (n + 1) := by gcongr
  have hNonneg : 0 ≤ (draw.toNat : Int) * (n + 1) := by positivity
  unfold rand
  rw [Int.sub_zero, Int.zero_mul, Int.add_zero, Int.tdiv_eq_ediv_of_nonneg hNonneg]
  omega

theorem mem_slotSpawns {now : ℚ} {slot : Nat} {spawn : MapChestSpawn × Nat}
    (h : spawn ∈ chest.slotSpawns now slot) :
    spawn.1 ∈ chest.spawns ∧ chest.Due now spawn.1 ∧ spawn.1.slot = slot + 1 := by
  obtain ⟨hMem, hSpawn⟩ := List.mem_filter.mp h
  obtain ⟨hDue, hSlot⟩ := of_decide_eq_true hSpawn
  exact ⟨List.fst_mem_of_mem_zipIdx hMem, hDue, by omega⟩

theorem slotSpawns_of_due {now : ℚ} {slot : Nat} {spawn : MapChestSpawn} (hSpawn : spawn ∈ chest.spawns)
    (hDue : chest.Due now spawn) (hSlot : spawn.slot = slot + 1) : chest.slotSpawns now slot ≠ [] := by
  obtain ⟨i, hItem⟩ := List.mem_iff_getElem?.mp hSpawn
  have hMem : (spawn, i) ∈ chest.spawns.zipIdx := List.mem_zipIdx_iff_getElem?.mpr hItem
  refine List.ne_nil_of_mem (List.mem_filter.mpr ⟨hMem, decide_eq_true ⟨hDue, ?_⟩⟩)
  rw [hSlot, Int.add_sub_cancel]

/-- Nothing is spawned where nothing is due, else one of the spawns. -/
theorem spawnSlot_cases (limits : Limits) (draw : Draw) (spawns : List (MapChestSpawn × Nat)) (chest : Chest) :
    (spawns = [] ∧ chest.spawnSlot limits draw spawns = chest) ∨
      ∃ spawn ∈ spawns, chest.spawnSlot limits draw spawns =
        { (chest.addItem spawn.1.item spawn.1.slot).1 with
          spawns := chest.spawns.modify spawn.2 (·.wait limits draw.random) } := by
  by_cases hSpawns : spawns = []
  · rw [hSpawns]
    exact .inl ⟨rfl, rfl⟩
  · have hLength := List.length_pos_of_ne_nil hSpawns
    have hRand := rand_bounds draw.choice (n := (spawns.length - 1 : Int)) (by omega)
    have hIndex : (rand draw.choice 0 (spawns.length - 1)).toNat < spawns.length := by omega
    refine .inr ⟨_, List.getElem_mem hIndex, ?_⟩
    rw [Chest.spawnSlot, List.getElem?_eq_getElem hIndex]

theorem addItem_slots (chest : Chest) (item : CharacterItem) (slot : Int) :
    (chest.addItem item slot).1.slots = chest.slots := by
  unfold Chest.addItem
  obtain hFull | ⟨-, -, it, -, -, -, hNew⟩ | ⟨-, -, -, -, -, hNew⟩ | ⟨-, -, -, hNew⟩ :=
    chest.toMapChest.addItem_cases item.id item.amount slot
  · rw [hFull]
  · rw [hNew]
  · rw [hNew]
  · rw [hNew]

/-- What is spawned is alone in its slot, and nothing else changes. -/
theorem addItem_items (chest : Chest) (item : CharacterItem) {slot : Int} (hSlot : slot ≠ 0) :
    (chest.addItem item slot).1.items = chest.items ∨
      ∃ it : MapChestItem, it.slot = slot ∧ (chest.addItem item slot).1.items = it :: chest.items := by
  unfold Chest.addItem
  obtain hFull | ⟨-, rfl, -⟩ | ⟨-, rfl, -⟩ | ⟨-, -, -, hNew⟩ :=
    chest.toMapChest.addItem_cases item.id item.amount slot
  · rw [hFull]
    exact .inl rfl
  · exact absurd rfl hSlot
  · exact absurd rfl hSlot
  · rw [hNew]
    exact .inr ⟨_, rfl, rfl⟩

/-- The spawns of one slot, all due. -/
def SpawnsFor (chest : Chest) (slot : Nat) (spawns : List (MapChestSpawn × Nat)) : Prop :=
  ∀ spawn ∈ spawns, spawn.1.slot = slot + 1 ∧ (spawn.1.slot ≤ chest.slots ∧ chest.Free spawn.1.slot)

theorem spawnSlot_slots (draw : Draw) (spawns : List (MapChestSpawn × Nat)) (chest : Chest) :
    (chest.spawnSlot limits draw spawns).slots = chest.slots := by
  obtain ⟨-, hSame⟩ | ⟨spawn, -, hSpawned⟩ := spawnSlot_cases limits draw spawns chest
  · rw [hSame]
  · rw [hSpawned]
    exact addItem_slots chest spawn.1.item spawn.1.slot

theorem spawnSlots_slots {start : Chest} {now : ℚ} {draws : Nat → Draw} (slots : List Nat) :
    (chest.spawnSlots limits now draws start slots).slots = chest.slots := by
  induction slots generalizing chest with
  | nil => rfl
  | cons slot rest ih => exact ih.trans (spawnSlot_slots (draws slot) (start.slotSpawns now slot) chest)

/-- Only the slot itself is filled. -/
theorem spawnSlot_free {slot : Nat} {spawns : List (MapChestSpawn × Nat)} {draw : Draw}
    (hSpawns : ∀ spawn ∈ spawns, spawn.1.slot = slot + 1) {other : Int} (hOther : other ≠ slot + 1) :
    (chest.spawnSlot limits draw spawns).Free other ↔ chest.Free other := by
  obtain ⟨-, hSame⟩ | ⟨spawn, hSpawn, hSpawned⟩ := spawnSlot_cases limits draw spawns chest
  · rw [hSame]
  · have hSlot := hSpawns spawn hSpawn
    rw [hSpawned]
    obtain hItems | ⟨it, hIt, hItems⟩ := addItem_items chest spawn.1.item (by omega : spawn.1.slot ≠ 0)
    · show (∀ it ∈ (chest.addItem _ _).1.items, _) ↔ _
      rw [hItems]
      rfl
    · show (∀ it ∈ (chest.addItem _ _).1.items, _) ↔ _
      rw [hItems, List.forall_mem_cons]
      exact and_iff_right (by omega)

theorem spawnSlot_kept (h : Kept limits chest) {slot : Nat} {spawns : List (MapChestSpawn × Nat)}
    (hSpawns : SpawnsFor chest slot spawns) (draw : Draw) : Kept limits (chest.spawnSlot limits draw spawns) := by
  obtain ⟨-, hSame⟩ | ⟨spawn, hSpawn, hSpawned⟩ := spawnSlot_cases limits draw spawns chest
  · rw [hSame]
    exact h
  · obtain ⟨hSlot, hMax, hFree⟩ := hSpawns spawn hSpawn
    have hAdded : Kept limits (chest.addItem spawn.1.item spawn.1.slot).1 :=
      addItem_kept h spawn.1.item fun _ => ⟨by omega, hFree⟩
    rw [hSpawned]
    refine hAdded.withSpawns (map_modify (·.slot) ?_ chest.spawns spawn.2)
    intro spawn
    rfl

/-- The spawns of another slot are due as before. -/
theorem SpawnsFor.next {slot other : Nat} {spawns others : List (MapChestSpawn × Nat)}
    (hOthers : SpawnsFor chest other others) (hSpawns : SpawnsFor chest slot spawns) (hDistinct : other ≠ slot)
    (draw : Draw) : SpawnsFor (chest.spawnSlot limits draw spawns) other others := by
  intro spawn hSpawn
  obtain ⟨hSlot, hMax, hFree⟩ := hOthers spawn hSpawn
  have hApart : spawn.1.slot ≠ slot + 1 := by omega
  refine ⟨hSlot, ?_, (spawnSlot_free (fun spawn hSpawn => (hSpawns spawn hSpawn).1) hApart).mpr hFree⟩
  rw [spawnSlot_slots]
  exact hMax

/-- The slots are filled one after the other. -/
theorem spawnSlots_kept {start : Chest} {now : ℚ} {draws : Nat → Draw} {slots : List Nat} (hSlots : slots.Nodup)
    (h : Kept limits chest) (hSpawns : ∀ slot ∈ slots, SpawnsFor chest slot (start.slotSpawns now slot)) :
    Kept limits (chest.spawnSlots limits now draws start slots) := by
  induction slots generalizing chest with
  | nil => exact h
  | cons slot rest ih =>
      obtain ⟨hNew, hRest⟩ := List.nodup_cons.mp hSlots
      have hFirst := hSpawns slot List.mem_cons_self
      refine ih hRest (spawnSlot_kept h hFirst (draws slot)) fun other hOther => ?_
      exact (hSpawns other (List.mem_cons_of_mem _ hOther)).next hFirst (fun hEq => hNew (hEq ▸ hOther)) (draws slot)

theorem Kept.spawnsFor (h : Kept limits chest) (now : ℚ) (slot : Nat) :
    SpawnsFor chest slot (chest.slotSpawns now slot) := by
  intro spawn hSpawn
  obtain ⟨hMem, hDue, hSlot⟩ := mem_slotSpawns hSpawn
  exact ⟨hSlot, (h.spawnSlots spawn.1 hMem).2, hDue.2⟩

theorem spawnPass_kept (h : Kept limits chest) (now : ℚ) (draws : Nat → Draw) :
    Kept limits (chest.spawnPass limits now draws) :=
  spawnSlots_kept List.nodup_range h fun slot _ => h.spawnsFor now slot

/-- A spawn of the allowed amount is added. -/
theorem spawnSlot_fills (h : Kept limits chest) {slot : Nat} {spawns : List (MapChestSpawn × Nat)}
    (hSpawns : SpawnsFor chest slot spawns) (hSome : spawns ≠ [])
    (hAmounts : ∀ spawn ∈ spawns, 1 ≤ spawn.1.item.amount ∧ spawn.1.item.amount ≤ limits.maxChest) (draw : Draw) :
    ¬(chest.spawnSlot limits draw spawns).Free (slot + 1) := by
  obtain ⟨hNone, -⟩ | ⟨spawn, hSpawn, hSpawned⟩ := spawnSlot_cases limits draw spawns chest
  · exact absurd hNone hSome
  · obtain ⟨hSlot, hMax, hFree⟩ := hSpawns spawn hSpawn
    have hAmount := hAmounts spawn hSpawn
    have hSize := h.room ⟨by omega, hMax⟩ hFree
    have hInt := limits.isInt
    have hRoom : chest.HasRoom spawn.1.item.amount := by
      unfold IsInt at hInt
      rw [MapChest.HasRoom, h.chestslots, h.maxchest, Int.emod_eq_of_lt (by omega) (by omega)]
      exact ⟨hSize, hAmount.2⟩
    have hPos : 0 < spawn.1.item.amount := by omega
    have hNonzero : spawn.1.slot ≠ 0 := by omega
    rw [hSpawned, Chest.addItem, MapChest.addItem_spawned hPos hNonzero hRoom]
    intro hNew
    exact hNew _ List.mem_cons_self hSlot

theorem spawnSlots_free {start : Chest} {now : ℚ} {draws : Nat → Draw} {slots : List Nat} {other : Nat}
    (hOther : other ∉ slots) :
    (chest.spawnSlots limits now draws start slots).Free (other + 1) ↔ chest.Free (other + 1) := by
  induction slots generalizing chest with
  | nil => rfl
  | cons slot rest ih =>
      obtain ⟨hFirst, hRest⟩ : other ≠ slot ∧ other ∉ rest := by simpa using hOther
      rw [Chest.spawnSlots, List.foldl_cons]
      refine (ih hRest).trans ?_
      exact spawnSlot_free (fun spawn hSpawn => (mem_slotSpawns hSpawn).2.2) (by omega)

theorem spawnSlots_fills {start : Chest} {now : ℚ} {draws : Nat → Draw} {slots : List Nat} (hSlots : slots.Nodup)
    (h : Kept limits chest) (hSpawns : ∀ slot ∈ slots, SpawnsFor chest slot (start.slotSpawns now slot))
    (hAmounts : ∀ spawn ∈ start.spawns, 1 ≤ spawn.item.amount ∧ spawn.item.amount ≤ limits.maxChest)
    {slot : Nat} (hSlot : slot ∈ slots) (hSome : start.slotSpawns now slot ≠ []) :
    ¬(chest.spawnSlots limits now draws start slots).Free (slot + 1) := by
  induction slots generalizing chest with
  | nil => cases hSlot
  | cons first rest ih =>
      obtain ⟨hNew, hRest⟩ := List.nodup_cons.mp hSlots
      have hFirst := hSpawns first List.mem_cons_self
      rcases List.mem_cons.mp hSlot with rfl | hLater
      · refine mt (spawnSlots_free hNew).mp (spawnSlot_fills h hFirst hSome (fun spawn hSpawn => ?_) _)
        exact hAmounts spawn.1 (mem_slotSpawns hSpawn).1
      · refine ih hRest (spawnSlot_kept h hFirst (draws first)) (fun other hOther => ?_) hLater
        exact (hSpawns other (List.mem_cons_of_mem _ hOther)).next hFirst (fun hEq => hNew (hEq ▸ hOther)) (draws first)

/-- A spawn that is due comes, itself or another one of its slot. -/
theorem spawnPass_fills (h : Kept limits chest) {now : ℚ} (draws : Nat → Draw)
    (hAmounts : ∀ spawn ∈ chest.spawns, 1 ≤ spawn.item.amount ∧ spawn.item.amount ≤ limits.maxChest)
    {spawn : MapChestSpawn} (hSpawn : spawn ∈ chest.spawns) (hDue : chest.Due now spawn) :
    ¬(chest.spawnPass limits now draws).Free spawn.slot := by
  obtain ⟨hLow, hHigh⟩ := h.spawnSlots spawn hSpawn
  obtain ⟨slot, hSlot⟩ : ∃ slot : Nat, spawn.slot = slot + 1 := ⟨(spawn.slot - 1).toNat, by omega⟩
  have hMem : slot ∈ List.range chest.slots.toNat := List.mem_range.mpr (by omega)
  rw [hSlot]
  exact spawnSlots_fills List.nodup_range h (fun other _ => h.spawnsFor now other) hAmounts hMem
    (slotSpawns_of_due hSpawn hDue hSlot)

end Pass

section Runs

variable {limits : Limits} {chests : List Chest}

theorem delItem_slots (chest : Chest) (item : Int) (now : ℚ) : (chest.delItem item now).1.slots = chest.slots := by
  unfold Chest.delItem MapChest.delItem
  cases chest.items.find? (·.id = item) with
  | none => rfl
  | some it => rfl

theorem delSomeItem_slots (chest : Chest) (item amount : Int) (now : ℚ) :
    (chest.delSomeItem item amount now).1.slots = chest.slots := by
  unfold Chest.delSomeItem MapChest.delSomeItem
  cases chest.items.find? (·.id = item) with
  | none => rfl
  | some it =>
      dsimp only
      split
      · rfl
      · exact delItem_slots chest item now

theorem spawnPass_slots (chest : Chest) (now : ℚ) (draws : Nat → Draw) :
    (chest.spawnPass limits now draws).slots = chest.slots :=
  spawnSlots_slots _

/-- The invariant of the chests of a map. -/
def AllKept (limits : Limits) (chests : List Chest) : Prop :=
  ∀ chest ∈ chests, chest.slots ≤ limits.chestSlots → Kept limits chest

theorem step_kept {op : Op} {next : List Chest} (h : AllKept limits chests) (hGood : ¬TakesReserved limits chests op)
    (hStep : step limits chests op = some next) : AllKept limits next := by
  cases op with
  | addItem chest item =>
      cases hStep
      refine forall_modify h fun self hSelf hSlots => ?_
      rw [addItem_slots] at hSlots
      exact addItem_kept (h self (List.mem_of_getElem? hSelf) hSlots) item fun hZero => absurd rfl hZero
  | delItem chest item now =>
      cases hStep
      refine forall_modify h fun self hSelf hSlots => ?_
      rw [delItem_slots] at hSlots
      exact delItem_kept (h self (List.mem_of_getElem? hSelf) hSlots) item now
  | take chest item taken now =>
      cases hStep
      split
      case isFalse => exact h
      case isTrue hPos =>
        refine forall_modify h fun self hSelf hSlots => ?_
        rw [delSomeItem_slots] at hSlots
        exact delSomeItem_kept (h self (List.mem_of_getElem? hSelf) hSlots) hSlots hPos
          (fun hLeaves => hGood ⟨self, hSelf, hLeaves⟩) now
  | spawnChests now draws =>
      cases hStep
      intro chest hChest hSlots
      obtain ⟨i, hi, rfl⟩ := List.mem_mapIdx.mp hChest
      rw [spawnPass_slots] at hSlots
      exact spawnPass_kept (h _ (List.getElem_mem hi) hSlots) now (draws i)

/-- One more entry is a user's, and there was no room for it. -/
theorem delSomeItem_leaves {chest : Chest} {item taken : Int} (h : chest.Leaves limits item taken) (now : ℚ) :
    ¬Proper limits (chest.delSomeItem item taken now).1 := by
  obtain ⟨hSlots, hFull, hPos, it, hFound, hSlot, hLess⟩ := h
  obtain ⟨before, after, hItems, hModified⟩ := modifyFirst_split hFound (MapChest.lessened taken)
  have hUsers := userItems_released hItems hSlot (rfl : (MapChest.lessened taken it).slot = 0)
  intro hProper
  have hReserved := hProper.reserved
  rw [delSomeItem_slots] at hReserved
  unfold Chest.delSomeItem MapChest.delSomeItem at hReserved
  rw [hFound] at hReserved
  dsimp only at hReserved
  rw [if_pos hLess, if_pos hLess, hModified, hUsers] at hReserved
  omega

theorem step_leaves {op : Op} {next : List Chest} (hBad : TakesReserved limits chests op)
    (hStep : step limits chests op = some next) : ¬AllProper limits next := by
  cases op with
  | take chest item taken now =>
      obtain ⟨self, hSelf, hLeaves⟩ := hBad
      obtain ⟨hSlots, -, hPos, -⟩ := id hLeaves
      cases hStep
      rw [if_pos hPos]
      intro hAll
      have hNew : (self.delSomeItem item taken now).1 ∈
          chests.modify chest fun self => (self.delSomeItem item taken now).1 := by
        refine List.mem_of_getElem? (i := chest) ?_
        rw [List.getElem?_modify_eq, hSelf]
        rfl
      refine delSomeItem_leaves hLeaves now (hAll _ hNew ?_)
      rw [delSomeItem_slots]
      exact hSlots
  | addItem | delItem | spawnChests => exact hBad.elim

end Runs

section Load

/-- A chest while the map is loaded. -/
structure Fresh (limits : Limits) (chest : Chest) : Prop where
  items : chest.items = []
  maxchest : chest.maxchest = limits.maxChest
  chestslots : chest.chestslots = limits.chestSlots
  slots : 0 ≤ chest.slots
  spawnSlots : ∀ spawn ∈ chest.spawns, 1 ≤ spawn.slot ∧ spawn.slot ≤ chest.slots

variable {limits : Limits} {chest : Chest}

theorem Fresh.addSpawn (h : Fresh limits chest) (now : ℚ) (record : SpawnRecord) :
    Fresh limits (chest.addSpawn limits now record) where
  items := h.items
  maxchest := h.maxchest
  chestslots := h.chestslots
  slots := Int.le_trans h.slots (Int.le_max_left _ _)
  spawnSlots := by
    have hOld := h.spawnSlots
    refine List.forall_mem_append.mpr ⟨fun spawn hSpawn => ?_, List.forall_mem_singleton.mpr ?_⟩
    · have hSlot := hOld spawn hSpawn
      exact ⟨hSlot.1, Int.le_trans hSlot.2 (Int.le_max_left _ _)⟩
    · exact ⟨by show (1 : Int) ≤ record.slot + 1; omega, Int.le_max_right _ _⟩

theorem Fresh.kept (h : Fresh limits chest) (hSlots : chest.slots ≤ limits.chestSlots) : Kept limits chest where
  maxchest := h.maxchest
  chestslots := h.chestslots
  slots := h.slots
  spawnSlots := h.spawnSlots
  amounts := by simp [h.items]
  unique := by simp [Chest.occupied, h.items]
  range := by simp [Chest.occupied, h.items]
  reserved := by simpa [MapChest.userItems, h.items] using hSlots

theorem load_kept (limits : Limits) (now : ℚ) (tiles : List (Int × Int)) (records : List SpawnRecord) :
    AllKept limits (load limits now tiles records) := by
  have hFresh : ∀ chest ∈ load limits now tiles records, Fresh limits chest := by
    unfold load
    refine List.foldlRecOn (motive := fun chests => ∀ chest ∈ chests, Fresh limits chest) records _ ?_ ?_
    · refine List.forall_mem_map.mpr fun tile _ => ?_
      exact ⟨rfl, rfl, rfl, Int.le_refl 0, by simp [emptyChest]⟩
    · intro chests hChests record _
      exact forall_modifyFirst hChests fun chest hChest => hChest.addSpawn now record
  exact fun chest hChest => (hFresh chest hChest).kept

/-- The chests are as they should be exactly as long as nobody takes a part of a spawned item
while users fill all entries that are left for them. -/
theorem chests_proper_iff (limits : Limits) (now : ℚ) (tiles : List (Int × Int)) (records : List SpawnRecord)
    (ops : List Op) :
    Always (step limits) (AllProper limits) (load limits now tiles records) ops ↔
      Avoids (step limits) (TakesReserved limits) (load limits now tiles records) ops :=
  always_iff_avoids (fun _ hKept chest hChest hSlots => (hKept chest hChest hSlots).proper)
    (fun _ _ _ hKept hGood hStep => step_kept hKept hGood hStep) (fun _ _ _ _ hBad hStep => step_leaves hBad hStep)
    (load_kept limits now tiles records) ops

/-- Chests with five entries. -/
def fiveSlots : Limits := ⟨1000, 5, by decide, 0, false⟩

/-- A chest with one slot, in which ten pieces of item 1 are spawned every minute. -/
def oneSpawn : List Chest := load fiveSlots 0 [(3, 4)] [⟨3, 4, 0, .of 1 10, 1, 0⟩]

/-- The slot is filled, users add four items, and somebody takes one of the ten pieces. -/
def partTaken : List Op :=
  [.spawnChests 61 fun _ _ => ⟨0, 0⟩, .addItem 0 (.of 2 1), .addItem 0 (.of 3 1), .addItem 0 (.of 4 1),
    .addItem 0 (.of 5 1), .take 0 1 1 62]

/-- The slot is free then, and there is no room for the next spawn. -/
theorem partTaken_fills_slot : ¬Always (step fiveSlots) (AllProper fiveSlots) oneSpawn partTaken := by
  intro h
  obtain ⟨chests, hRun, chest, hChest, hSlots, hFull⟩ :
      ∃ chests, run (step fiveSlots) oneSpawn partTaken = some chests ∧
        ∃ chest ∈ chests, chest.slots ≤ 5 ∧ 5 < chest.userItems + chest.slots := by
    refine ⟨_, rfl, ?_⟩
    decide +kernel
  have hReserved := (h partTaken chests List.prefix_rfl hRun chest hChest hSlots).reserved
  exact absurd hReserved (Int.not_le.mpr hFull)

end Load

end Etheos.ChestSpawns
