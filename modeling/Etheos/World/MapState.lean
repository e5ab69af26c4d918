import Etheos.General.Run
import Etheos.World.Replay

/-! What lies on the maps over a stop and a start of the server. Maps are loaded from their
files, and what can lie in a chest is what requests and spawns have left there. -/
namespace Etheos.WorldDump

open Characters General General.Entries Stores Stores.MapChest

/-- A chest spawn of a map file. The slot is the byte that is read. -/
structure ChestSpawn where
  x : Int
  y : Int
  slot : UInt8
  item : Int
  amount : Int
  deriving DecidableEq

/-- `chests` are the tiles with the spec of a chest. -/
structure MapFile where
  id : Int
  chests : List (Int × Int)
  spawns : List ChestSpawn
  deriving DecidableEq

structure MapFiles where
  cfg : ChestConfig
  chestSlots : Int
  files : List MapFile
  /-- Maps are numbered. -/
  numbered : (files.map (·.id)).Nodup

section Load

/-- `slot+1`: no slot is left for the items of users. -/
def ChestSpawn.number (s : ChestSpawn) : Int := PacketProcessor.number s.slot 254 254 254 + 1

/-- A spawn belongs to the first chest at its place. -/
def attach (chests : List MapChest) (s : ChestSpawn) : List MapChest :=
  if s.amount = 0 then chests
  else
    modifyFirst (fun chest => chest.x = s.x ∧ chest.y = s.y)
      (fun chest => { chest with slots := max chest.slots s.number }) chests

def MapFile.load (cfg : ChestConfig) (chestSlots : Int) (file : MapFile) : GameMap where
  id := file.id
  items := []
  chests := file.spawns.foldl attach
    (file.chests.map fun (x, y) => ⟨x, y, [], 0, cfg.maxChest, chestSlots⟩)

def MapFiles.load (world : MapFiles) : List GameMap := world.files.map (·.load world.cfg world.chestSlots)

end Load

/-- A request of a character, a spawn that is due, and whatever happens to the ground items
of a map. -/
inductive MapEvent where
  | request (mapId : Int) (self : Body) (quests : Checks) (request : ChestRequest)
  | spawn (file : MapFile) (s : ChestSpawn)
  | ground (mapId : Int) (items : List GroundItem)

section Events

variable (world : MapFiles)

/-- `map_spawn_chests` for one slot, which must be free. -/
def spawnInto (s : ChestSpawn) (chest : MapChest) : MapChest :=
  if chest.items.any (·.slot = s.number) then chest
  else (chest.addItem (toShort s.item) (toInt s.amount) s.number).1

def requestOn (self : Body) (quests : Checks) (request : ChestRequest) (map : GameMap) : GameMap :=
  { map with
    chests := (final (chestRequest world.cfg quests request) ⟨self, map.chests, 0, fun _ => 0⟩).store }

def spawnOn (s : ChestSpawn) (map : GameMap) : GameMap :=
  { map with chests := modifyFirst (fun chest => chest.x = s.x ∧ chest.y = s.y) (spawnInto s) map.chests }

def stepMaps (maps : List GameMap) : MapEvent → Option (List GameMap)
  | .request mapId self quests request =>
      some (modifyFirst (·.id = mapId) (requestOn world self quests request) maps)
  | .spawn file s =>
      if file ∈ world.files ∧ s ∈ file.spawns ∧ s.amount ≠ 0 then
        some (modifyFirst (·.id = file.id) (spawnOn s) maps)
      else none
  | .ground mapId items => some (modifyFirst (·.id = mapId) (fun map => { map with items := items }) maps)

end Events

/-- What lies on a map is there again. -/
structure SameContents (map map' : GameMap) : Prop where
  items : map'.dumpItems.Perm map.dumpItems
  chests : List.Forall₂ (fun chest chest' => emptied chest' = emptied chest ∧ chest'.items.Perm chest.items)
    map.chests map'.chests

section Chests

/-- Nothing lies in a chest behind another one at the same place. -/
def FirstOnly (chests : List MapChest) : Prop :=
  chests.Pairwise fun a b => b.items ≠ [] → ¬(a.x = b.x ∧ a.y = b.y)

/-- One chest is changed: something is added to the first one at a place, or taken out. -/
inductive Touched : List MapChest → List MapChest → Prop where
  | none (chests : List MapChest) : Touched chests chests
  | added {before : List MapChest} {chest : MapChest} (after : List MapChest) {item amount slot : Int}
      (hFirst : ∀ a ∈ before, ¬(a.x = chest.x ∧ a.y = chest.y)) (hItem : toShort item = item)
      (hAmount : IsInt amount) (hSlot : toInt slot = slot) :
      Touched (before ++ chest :: after) (before ++ (chest.addItem item amount slot).1 :: after)
  | taken (before : List MapChest) (chest : MapChest) (after : List MapChest) {item amount : Int}
      (hPos : 0 < amount) :
      Touched (before ++ chest :: after) (before ++ (chest.delSomeItem item amount).1 :: after)

section Amounts

variable {chest : MapChest} {item amount slot : Int}

theorem emptied_addItem : emptied (chest.addItem item amount slot).1 = emptied chest := by
  obtain h | ⟨-, -, it, -, -, -, h⟩ | ⟨-, -, -, -, -, h⟩ | ⟨-, -, -, h⟩ := chest.addItem_cases item amount slot
  · rw [h]
  all_goals exact congrArg (fun result => emptied result.1) h

theorem emptied_delSomeItem : emptied (chest.delSomeItem item amount).1 = emptied chest := by
  obtain h | ⟨it, -, -, h⟩ | h := chest.delSomeItem_cases item amount
  · rw [h]
  all_goals exact (congrArg emptied h).trans rfl

theorem delSomeItem_empty (h : chest.items = []) : (chest.delSomeItem item amount).1 = chest := by
  rw [MapChest.delSomeItem, h]
  rfl

theorem addItem_bounded (h : Bounded chest) (hItem : toShort item = item) (hAmount : IsInt amount)
    (hSlot : toInt slot = slot) : Bounded (chest.addItem item amount slot).1 := by
  have hNew : 0 < amount → amount ≤ chest.maxchest → Storable chest.maxchest ⟨.of item amount, slot⟩ := by
    intro hPos hLe
    refine ⟨hItem, hSlot, ?_, ?_⟩
    · rwa [CharacterItem.of_amount, hAmount.toInt_eq]
    · rwa [CharacterItem.of_amount, hAmount.toInt_eq]
  obtain hSame | ⟨hPos, -, it, hFound, hMin, hMax, hMerged⟩ | ⟨hPos, -, -, hRoom, -, hUser⟩ |
      ⟨hPos, -, hRoom, hSpawned⟩ := chest.addItem_cases item amount slot
  · rwa [hSame]
  · have hIt := h.storable it (List.mem_of_find?_eq_some hFound)
    have hExact := CharacterItem.toInt_add it.isInt hAmount hPos hMin
    rw [hMerged]
    refine ⟨?_, forall_modifyFirst_of_found hFound h.storable ⟨hIt.id, hIt.slot, ?_, ?_⟩⟩
    · rw [length_modifyFirst]
      exact h.length
    · have hOld := hIt.pos
      rw [grown, CharacterItem.of_amount]
      omega
    · exact hMax
  · rw [hUser]
    constructor
    · rw [List.length_append, List.length_singleton]
      exact Int.add_one_le_of_lt hRoom.1
    · exact List.forall_mem_append.mpr ⟨h.storable, List.forall_mem_singleton.mpr (hNew hPos hRoom.2)⟩
  · rw [hSpawned]
    exact ⟨Int.add_one_le_of_lt hRoom.1, List.forall_mem_cons.mpr ⟨hNew hPos hRoom.2, h.storable⟩⟩

theorem delSomeItem_bounded (h : Bounded chest) (hPos : 0 < amount) :
    Bounded (chest.delSomeItem item amount).1 := by
  obtain hSame | ⟨it, hFound, hLess, hLeft⟩ | hErased := chest.delSomeItem_cases item amount
  · rwa [hSame]
  · have hIt := h.storable it (List.mem_of_find?_eq_some hFound)
    have hExact : toInt (it.amount - amount) = it.amount - amount := by
      have hInt := it.isInt
      refine IsInt.toInt_eq ?_
      unfold IsInt at *
      omega
    rw [hLeft]
    refine ⟨?_, forall_modifyFirst_of_found hFound h.storable ⟨hIt.id, rfl, ?_, ?_⟩⟩
    · rw [length_modifyFirst]
      exact h.length
    · rw [lessened, CharacterItem.of_amount]
      omega
    · have hLe := hIt.le
      rw [lessened, CharacterItem.of_amount]
      dsimp only
      omega
  · have hSub := eraseFirst_sublist (·.id = item) chest.items
    rw [hErased]
    refine ⟨?_, fun it hit => h.storable it (hSub.subset hit)⟩
    have hLength := h.length
    have hFewer := hSub.length_le
    dsimp only
    omega

end Amounts

/-- A change of one chest that keeps what is said about each of them. -/
theorem touched_kept {before after : List MapChest} {chest chest' : MapChest}
    (hSame : emptied chest' = emptied chest) (hBounded : Bounded chest → Bounded chest')
    (hFirst : chest'.items ≠ [] → chest.items ≠ [] ∨ ∀ a ∈ before, ¬(a.x = chest.x ∧ a.y = chest.y)) :
    (before ++ chest' :: after).map emptied = (before ++ chest :: after).map emptied ∧
      ((∀ c ∈ before ++ chest :: after, Bounded c) → ∀ c ∈ before ++ chest' :: after, Bounded c) ∧
      (FirstOnly (before ++ chest :: after) → FirstOnly (before ++ chest' :: after)) := by
  have hx : (emptied chest').x = (emptied chest).x := congrArg MapChest.x hSame
  have hy : (emptied chest').y = (emptied chest).y := congrArg MapChest.y hSame
  dsimp only [emptied] at hx hy
  refine ⟨?_, fun hAll => ?_, fun hOnly => ?_⟩
  · rw [List.map_append, List.map_append, List.map_cons, List.map_cons, hSame]
  · rw [List.forall_mem_append, List.forall_mem_cons] at hAll ⊢
    exact ⟨hAll.1, hBounded hAll.2.1, hAll.2.2⟩
  · rw [FirstOnly, List.pairwise_append, List.pairwise_cons] at hOnly ⊢
    obtain ⟨hBefore, ⟨hChest, hAfter⟩, hAcross⟩ := hOnly
    refine ⟨hBefore, ⟨fun b hb => ?_, hAfter⟩, fun a ha b hb => ?_⟩
    · rw [hx, hy]
      exact hChest b hb
    · rcases List.mem_cons.mp hb with rfl | hRest
      · intro hItems
        rw [hx, hy]
        rcases hFirst hItems with hOld | hNone
        · exact hAcross a ha chest List.mem_cons_self hOld
        · exact hNone a ha
      · exact hAcross a ha b (List.mem_cons_of_mem _ hRest)

theorem Touched.kept {chests chests' : List MapChest} (h : Touched chests chests') :
    chests'.map emptied = chests.map emptied ∧
      ((∀ c ∈ chests, Bounded c) → ∀ c ∈ chests', Bounded c) ∧ (FirstOnly chests → FirstOnly chests') := by
  cases h with
  | none => exact ⟨rfl, id, id⟩
  | added after hFirst hItem hAmount hSlot =>
      exact touched_kept emptied_addItem (fun hOld => addItem_bounded hOld hItem hAmount hSlot)
        fun _ => .inr hFirst
  | taken before chest after hPos =>
      refine touched_kept emptied_delSomeItem (fun hOld => delSomeItem_bounded hOld hPos) fun hItems => .inl ?_
      intro hEmpty
      rw [delSomeItem_empty hEmpty] at hItems
      exact hItems hEmpty

section Requests

variable {cfg : ChestConfig} {self : Body} {x y id : Int}

/-- Something is put into the first chest at the place. -/
theorem putIn_split {amount n : Int} (hAmount : IsInt amount) {chests chests' : List MapChest}
    (h : putIn cfg self x y id amount chests = some (chests', n)) :
    ∃ before chest after, chests = before ++ chest :: after ∧
      chests' = before ++ (chest.addItem (toShort id) n 0).1 :: after ∧
      (∀ a ∈ before, ¬(a.x = x ∧ a.y = y)) ∧ (chest.x = x ∧ chest.y = y) ∧ IsInt n := by
  induction chests generalizing chests' with
  | nil => cases h
  | cons chest rest ih =>
      unfold putIn at h
      split at h
      case isTrue hHere =>
        obtain ⟨-, hSome⟩ := Option.ite_none_right_eq_some.mp h
        cases hSome
        refine ⟨[], chest, rest, rfl, rfl, fun a ha => ?_, hHere, ?_⟩
        · cases ha
        · have hRoom := isInt_toInt (cfg.maxChest - chest.hasItem (toShort id))
          unfold IsInt at *
          omega
      case isFalse hElsewhere =>
        obtain ⟨⟨others, m⟩, hRest, hPair⟩ := Option.map_eq_some_iff.mp h
        cases hPair
        obtain ⟨before, touched, after, rfl, rfl, hBefore, hHere, hInt⟩ := ih hRest
        exact ⟨chest :: before, touched, after, rfl, rfl, List.forall_mem_cons.mpr ⟨hElsewhere, hBefore⟩,
          hHere, hInt⟩

theorem putIn_touched {amount n : Int} (hAmount : IsInt amount) {chests chests' : List MapChest}
    (h : putIn cfg self x y id amount chests = some (chests', n)) : Touched chests chests' := by
  obtain ⟨before, chest, after, rfl, rfl, hBefore, ⟨rfl, rfl⟩, hInt⟩ := putIn_split hAmount h
  exact .added after hBefore (toShort_toShort id) hInt rfl

theorem takeOut_touched {n : Int} {chests chests' : List MapChest}
    (h : takeOut cfg self x y id chests = some (chests', n)) : Touched chests chests' := by
  suffices hSplit : ∃ before chest after amount, 0 < amount ∧ chests = before ++ chest :: after ∧
      chests' = before ++ (chest.delSomeItem (toShort id) amount).1 :: after by
    obtain ⟨before, chest, after, amount, hPos, rfl, rfl⟩ := hSplit
    exact .taken before chest after hPos
  induction chests generalizing chests' with
  | nil => cases h
  | cons chest rest ih =>
      rw [takeOut_cons] at h
      split at h
      case isTrue hGives =>
        cases h
        exact ⟨[], chest, rest, _, hGives.2, rfl, rfl⟩
      case isFalse =>
        obtain ⟨⟨others, m⟩, hRest, hPair⟩ := Option.map_eq_some_iff.mp h
        cases hPair
        obtain ⟨before, touched, after, amount, hPos, rfl, rfl⟩ := ih hRest
        exact ⟨chest :: before, touched, after, amount, hPos, rfl, rfl⟩

/-- What a request does to the chests of the map. -/
theorem chestRequest_touched (cfg : ChestConfig) (quests : Checks) (s : State (List MapChest))
    (request : ChestRequest) : Touched s.store (final (chestRequest cfg quests request) s).store := by
  cases request with
  | add x y item amount =>
      unfold chestRequest chestAdd
      rw [final_read]
      dsimp only
      split
      · exact .none _
      · split
        · exact .none _
        · split
          · exact .none _
          · split
            · cases hPut : putIn cfg s.body x y item (toInt amount) s.store with
              | none => exact .none _
              | some result =>
                  obtain ⟨chests, n⟩ := result
                  dsimp only
                  rw [final_modify_bind, delItem_store]
                  exact putIn_touched (isInt_toInt amount) hPut
            · exact .none _
  | take x y item =>
      unfold chestRequest chestTake
      rw [final_read]
      dsimp only
      split
      · cases hTake : takeOut cfg s.body x y item s.store with
        | none => exact .none _
        | some result =>
            obtain ⟨chests, n⟩ := result
            dsimp only
            rw [final_modify_bind, addItem_store]
            exact takeOut_touched hTake
      · exact .none _

theorem ChestSpawn.number_pos (s : ChestSpawn) : 0 < s.number :=
  Int.lt_add_one_of_le (Int.natCast_nonneg _)

theorem ChestSpawn.toInt_number (s : ChestSpawn) : toInt s.number = s.number := by
  have hPos := s.number_pos
  have hByte := PacketProcessor.digit_lt s.slot
  have hNumber : s.number = PacketProcessor.digit s.slot + 1 := by
    rw [number, PacketProcessor.number, PacketProcessor.digit_absent, Nat.zero_mul, Nat.zero_mul, Nat.zero_mul,
      Nat.zero_add]
  refine IsInt.toInt_eq ?_
  unfold IsInt
  omega

/-- A spawn comes into the first chest at its place. -/
theorem spawn_touched (s : ChestSpawn) (chests : List MapChest) :
    Touched chests (modifyFirst (fun chest => chest.x = s.x ∧ chest.y = s.y) (spawnInto s) chests) := by
  cases hFound : chests.find? (fun chest => decide (chest.x = s.x ∧ chest.y = s.y)) with
  | none =>
      rw [modifyFirst_of_missing hFound]
      exact .none chests
  | some chest =>
      obtain ⟨hHere, before, after, rfl, hBefore⟩ := List.find?_eq_some_iff_append.mp hFound
      have hPlace : chest.x = s.x ∧ chest.y = s.y := of_decide_eq_true hHere
      have hOthers : ∀ a ∈ before, ¬(a.x = s.x ∧ a.y = s.y) := fun a ha hSame =>
        absurd (hBefore a ha) (by simp [hSame])
      rw [modifyFirst_middle hOthers hPlace, spawnInto]
      split
      · exact .none _
      · refine .added after ?_ (toShort_toShort s.item) (isInt_toInt s.amount) s.toInt_number
        rw [hPlace.1, hPlace.2]
        exact hOthers

end Requests

end Chests

section Worlds

def GameMap.fresh (map : GameMap) : GameMap := { map with items := [], chests := map.chests.map emptied }

structure GameMap.Kept (map : GameMap) : Prop where
  bounded : ∀ chest ∈ map.chests, Bounded chest
  firstOnly : FirstOnly map.chests

/-- The maps are those that have been loaded, with what lies on them. -/
structure KeptMaps (world : MapFiles) (maps : List GameMap) : Prop where
  loaded : maps.map GameMap.fresh = world.load
  kept : ∀ map ∈ maps, map.Kept

theorem GameMap.Kept.touched {map : GameMap} (h : map.Kept) {chests : List MapChest}
    (hTouched : Touched map.chests chests) : GameMap.Kept { map with chests := chests } :=
  ⟨hTouched.kept.2.1 h.bounded, hTouched.kept.2.2 h.firstOnly⟩

theorem fresh_touched {map : GameMap} {chests : List MapChest} (h : Touched map.chests chests) :
    GameMap.fresh { map with chests := chests } = map.fresh := by
  rw [GameMap.fresh, GameMap.fresh, h.kept.1]

/-- One map is changed. -/
theorem KeptMaps.modified {world : MapFiles} {maps : List GameMap} (h : KeptMaps world maps)
    {p : GameMap → Prop} [DecidablePred p] {f : GameMap → GameMap} (hFresh : ∀ map, (f map).fresh = map.fresh)
    (hKept : ∀ map : GameMap, map.Kept → (f map).Kept) : KeptMaps world (modifyFirst p f maps) where
  loaded := (map_modifyFirst GameMap.fresh fun map _ => hFresh map).trans h.loaded
  kept := forall_modifyFirst h.kept hKept

theorem attach_items {chests : List MapChest} (h : ∀ chest ∈ chests, chest.items = []) (s : ChestSpawn) :
    ∀ chest ∈ attach chests s, chest.items = [] := by
  unfold attach
  split
  · exact h
  · exact forall_modifyFirst h fun _ hEmpty => hEmpty

theorem load_items (cfg : ChestConfig) (chestSlots : Int) (file : MapFile) :
    ∀ chest ∈ (file.load cfg chestSlots).chests, chest.items = [] := by
  suffices h : ∀ (spawns : List ChestSpawn) (chests : List MapChest), (∀ chest ∈ chests, chest.items = []) →
      ∀ chest ∈ spawns.foldl attach chests, chest.items = [] by
    refine h file.spawns _ fun chest hChest => ?_
    obtain ⟨place, -, rfl⟩ := List.mem_map.mp hChest
    rfl
  intro spawns
  induction spawns with
  | nil => exact fun _ hEmpty => hEmpty
  | cons s rest ih => exact fun chests hEmpty => ih _ (attach_items hEmpty s)

theorem emptied_of_empty {chest : MapChest} (h : chest.items = []) : emptied chest = chest := by
  rw [emptied, ← h]

theorem load_kept (world : MapFiles) : KeptMaps world world.load := by
  have hEmpty : ∀ map ∈ world.load, map.items = [] ∧ ∀ chest ∈ map.chests, chest.items = [] := by
    intro map hMap
    obtain ⟨file, -, rfl⟩ := List.mem_map.mp hMap
    exact ⟨rfl, load_items world.cfg world.chestSlots file⟩
  constructor
  · refine (List.map_congr_left fun map hMap => ?_).trans (List.map_id _)
    obtain ⟨hItems, hChests⟩ := hEmpty map hMap
    have hSame : map.chests.map emptied = map.chests :=
      (List.map_congr_left fun chest hChest => emptied_of_empty (hChests chest hChest)).trans (List.map_id _)
    rw [GameMap.fresh, hSame, ← hItems]
    rfl
  · intro map hMap
    obtain ⟨-, hChests⟩ := hEmpty map hMap
    constructor
    · intro chest hChest
      have hNone := hChests chest hChest
      constructor
      · rw [hNone]
        exact Int.emod_nonneg _ (by decide)
      · intro it hMem
        rw [hNone] at hMem
        cases hMem
    · refine List.Pairwise.imp_of_mem (R := fun _ _ => True) (fun _ hb _ hItems => ?_)
        (List.pairwise_of_forall fun _ _ => trivial)
      exact absurd (hChests _ hb) hItems

theorem stepMaps_kept (world : MapFiles) (maps : List GameMap) (event : MapEvent) (next : List GameMap)
    (h : KeptMaps world maps) (hStep : stepMaps world maps event = some next) : KeptMaps world next := by
  cases event with
  | request mapId self quests request =>
      obtain rfl := Option.some.inj hStep
      have hTouched : ∀ map : GameMap, Touched map.chests (requestOn world self quests request map).chests :=
        fun map => chestRequest_touched world.cfg quests ⟨self, map.chests, 0, fun _ => 0⟩ request
      exact h.modified (fun map => fresh_touched (hTouched map)) fun map hMap => hMap.touched (hTouched map)
  | spawn file s =>
      obtain ⟨-, hNext⟩ := Option.ite_none_right_eq_some.mp hStep
      obtain rfl := Option.some.inj hNext
      exact h.modified (fun map => fresh_touched (spawn_touched s map.chests)) fun map hMap =>
        hMap.touched (spawn_touched s map.chests)
  | ground mapId items =>
      obtain rfl := Option.some.inj hStep
      exact h.modified (fun _ => rfl) fun map hMap => ⟨hMap.bounded, hMap.firstOnly⟩

theorem run_kept (world : MapFiles) {events : List MapEvent} {maps : List GameMap}
    (h : General.run (stepMaps world) world.load events = some maps) : KeptMaps world maps :=
  General.always_of_invariant (stepMaps_kept world) (load_kept world) events events maps (List.prefix_refl _) h

end Worlds

section RoundTrip

def putItem (i : ItemRecord) (map : GameMap) : GameMap := { map with items := map.items ++ [i.item] }

def putChest (c : ChestRecord) (map : GameMap) : GameMap :=
  { map with
    chests := modifyFirst (fun chest => chest.x = c.x ∧ chest.y = c.y) (fun chest => (c.add chest).1) map.chests }

/-- What is put back on one map. -/
def GameMap.restored (map : GameMap) : GameMap :=
  { map with
    items := map.dumpItems.map ItemRecord.item
    chests := map.chests.map fun chest => replay (emptied chest) chest.items }

theorem foldl_putItem (records : List ItemRecord) (map : GameMap) :
    records.foldl (fun map i => putItem i map) map =
      { map with items := map.items ++ records.map ItemRecord.item } := by
  induction records generalizing map with
  | nil => rw [List.map_nil, List.append_nil, List.foldl_nil]
  | cons i rest ih => rw [List.foldl_cons, ih, putItem, List.map_cons, List.append_assoc, List.singleton_append]

theorem foldl_putChest (records : List ChestRecord) (map : GameMap) :
    records.foldl (fun map c => putChest c map) map =
      { map with
        chests := records.foldl (fun chests c => modifyFirst (fun chest => chest.x = c.x ∧ chest.y = c.y)
          (fun chest => (c.add chest).1) chests) map.chests } := by
  induction records generalizing map with
  | nil => rfl
  | cons c rest ih => rw [List.foldl_cons, ih, putChest, List.foldl_cons]

theorem add_settings (c : ChestRecord) (chest : MapChest) : emptied (c.add chest).1 = emptied chest :=
  emptied_addItem

theorem foldl_add (map : GameMap) (chest start : MapChest) :
    (map.dumpChest chest).foldl (fun chest c => (c.add chest).1) start = replay start chest.items := by
  rw [GameMap.dumpChest, List.foldl_map]
  rfl

/-- The chests of a map get their own entries. -/
theorem restored_chests {map : GameMap} (h : FirstOnly map.chests) :
    (map.chests.flatMap map.dumpChest).foldl (fun chests c =>
      modifyFirst (fun chest => chest.x = c.x ∧ chest.y = c.y) (fun chest => (c.add chest).1) chests)
      (map.chests.map emptied) =
      map.chests.map fun chest => replay (emptied chest) chest.items := by
  have hKeep : ∀ (c c' : ChestRecord) (chest : MapChest),
      ((c'.add chest).1.x = c.x ∧ (c'.add chest).1.y = c.y) ↔ (chest.x = c.x ∧ chest.y = c.y) := by
    intro c c' chest
    have hx := congrArg MapChest.x (add_settings c' chest)
    have hy := congrArg MapChest.y (add_settings c' chest)
    dsimp only [emptied] at hx hy
    rw [hx, hy]
  have hOwn : ∀ chest ∈ map.chests, ∀ c ∈ map.dumpChest chest, chest.x = c.x ∧ chest.y = c.y := by
    intro chest _ c hc
    obtain ⟨it, -, rfl⟩ := List.mem_map.mp hc
    exact ⟨rfl, rfl⟩
  have hFirst : map.chests.Pairwise fun a b => ∀ c ∈ map.dumpChest b, ¬(a.x = c.x ∧ a.y = c.y) := by
    refine h.imp fun hab c hc => ?_
    obtain ⟨it, hit, rfl⟩ := List.mem_map.mp hc
    exact hab (List.ne_nil_of_mem hit)
  have hBlank : ∀ (c : ChestRecord) (chest : MapChest),
      ((emptied chest).x = c.x ∧ (emptied chest).y = c.y) ↔ (chest.x = c.x ∧ chest.y = c.y) :=
    fun _ _ => Iff.rfl
  rw [foldl_flatMap_modifyFirst hKeep hBlank hOwn hFirst]
  exact List.map_congr_left fun chest _ => foldl_add map chest (emptied chest)

theorem restoreItems_dump {maps : List GameMap} (hNumbered : (maps.map (·.id)).Nodup) :
    (maps.flatMap GameMap.dumpItems).foldl restoreItem (maps.map GameMap.fresh) =
      maps.map fun map => { map.fresh with items := map.dumpItems.map ItemRecord.item } := by
  have hKeep : ∀ (i i' : ItemRecord) (map : GameMap), (putItem i' map).id = i.mapId ↔ map.id = i.mapId :=
    fun _ _ _ => Iff.rfl
  have hBlank : ∀ (i : ItemRecord) (map : GameMap), map.fresh.id = i.mapId ↔ map.id = i.mapId :=
    fun _ _ => Iff.rfl
  have hOwn : ∀ map ∈ maps, ∀ i ∈ map.dumpItems, map.id = i.mapId := by
    intro map _ i hi
    obtain ⟨item, -, rfl⟩ := List.mem_map.mp hi
    rfl
  have hFirst : maps.Pairwise fun a b => ∀ i ∈ b.dumpItems, ¬a.id = i.mapId := by
    refine (List.pairwise_map.mp hNumbered).imp fun hab i hi => ?_
    obtain ⟨item, -, rfl⟩ := List.mem_map.mp hi
    exact hab
  have hAll := foldl_flatMap_modifyFirst hKeep hBlank hOwn hFirst
  refine Eq.trans hAll (List.map_congr_left fun map _ => ?_)
  rw [foldl_putItem]
  rfl

theorem restoreChests_dump {maps : List GameMap} (hNumbered : (maps.map (·.id)).Nodup)
    (h : ∀ map ∈ maps, FirstOnly map.chests) :
    (maps.flatMap fun map => map.chests.flatMap map.dumpChest).foldl restoreChest
      (maps.map fun map => { map.fresh with items := map.dumpItems.map ItemRecord.item }) =
      maps.map GameMap.restored := by
  have hKeep : ∀ (c c' : ChestRecord) (map : GameMap), (putChest c' map).id = c.mapId ↔ map.id = c.mapId :=
    fun _ _ _ => Iff.rfl
  have hBlank : ∀ (c : ChestRecord) (map : GameMap),
      ({ map.fresh with items := map.dumpItems.map ItemRecord.item } : GameMap).id = c.mapId ↔
        map.id = c.mapId :=
    fun _ _ => Iff.rfl
  have hMapId : ∀ map : GameMap, ∀ c ∈ map.chests.flatMap map.dumpChest, map.id = c.mapId := by
    intro map c hc
    obtain ⟨chest, -, hMem⟩ := List.mem_flatMap.mp hc
    obtain ⟨it, -, rfl⟩ := List.mem_map.mp hMem
    rfl
  have hFirst : maps.Pairwise fun a b => ∀ c ∈ b.chests.flatMap b.dumpChest, ¬a.id = c.mapId :=
    (List.pairwise_map.mp hNumbered).imp fun hab c hc hSame => hab (hSame.trans (hMapId _ c hc).symm)
  have hAll := foldl_flatMap_modifyFirst hKeep hBlank (fun map _ => hMapId map) hFirst
  refine Eq.trans hAll (List.map_congr_left fun map hMap => ?_)
  rw [foldl_putChest]
  exact congrArg (GameMap.mk map.id (map.dumpItems.map ItemRecord.item)) (restored_chests (h map hMap))

/-- What is dumped is put back map by map. -/
theorem restoreMapState_dump {maps : List GameMap} (hNumbered : (maps.map (·.id)).Nodup)
    (h : ∀ map ∈ maps, FirstOnly map.chests) (characters : List CharacterRecord) (guilds : List GuildRecord)
    (existing : Option Dump) :
    restoreMapState (dumpToFile characters guilds maps existing) (maps.map GameMap.fresh) =
      maps.map GameMap.restored := by
  rw [← restoreChests_dump hNumbered h, ← restoreItems_dump hNumbered]
  rfl

theorem item_dumped (map : GameMap) (item : GroundItem) :
    let i : ItemRecord := ⟨map.id, item.x, item.y, item.id, item.amount, item.uid⟩
    (⟨map.id, i.item.x, i.item.y, i.item.id, i.item.amount, i.item.uid⟩ : ItemRecord) = i := by
  have hAmount : toInt item.amount = item.amount := item.isInt.toInt_eq
  simp only [ItemRecord.item, CharacterItem.of_id, CharacterItem.of_amount, item.id_short, item.uid_short,
    item.x_byte, item.y_byte, hAmount]

theorem restored_items (map : GameMap) : map.restored.dumpItems = map.dumpItems := by
  unfold GameMap.dumpItems GameMap.restored GameMap.dumpItems
  rw [List.map_map, List.map_map]
  exact List.map_congr_left fun item _ => item_dumped map item

theorem emptied_replay (chest : MapChest) (entries : List MapChestItem) :
    emptied (replay chest entries) = emptied chest := by
  induction entries generalizing chest with
  | nil => rfl
  | cons it rest ih => exact (ih _).trans emptied_addItem

theorem sameContents_restored {map : GameMap} (h : map.Kept) :
    SameContents map map.restored ↔ ∀ chest ∈ map.chests, Replayable chest := by
  constructor
  · intro hSame chest hChest
    have hChests := hSame.chests
    rw [GameMap.restored, List.forall₂_map_right_iff, List.forall₂_same] at hChests
    exact (replay_emptied_iff (h.bounded chest hChest)).mp (hChests chest hChest).2
  · intro hAll
    constructor
    · rw [restored_items]
    · rw [GameMap.restored, List.forall₂_map_right_iff, List.forall₂_same]
      intro chest hChest
      exact ⟨emptied_replay _ _, (replay_emptied_iff (h.bounded chest hChest)).mpr (hAll chest hChest)⟩

end RoundTrip

/-- In every world that can be reached, a stop and a start keep what lies on the maps
exactly if every chest can be filled again entry by entry. -/
theorem dump_restores_iff (world : MapFiles) {events : List MapEvent} {maps : List GameMap}
    (hRun : General.run (stepMaps world) world.load events = some maps) (characters : List CharacterRecord)
    (guilds : List GuildRecord) (existing : Option Dump) :
    List.Forall₂ SameContents maps
        (restoreMapState (dumpToFile characters guilds maps existing) world.load) ↔
      ∀ map ∈ maps, ∀ chest ∈ map.chests, Replayable chest := by
  have hKept := run_kept world hRun
  have hNumbered : (maps.map (·.id)).Nodup := by
    have hIds : maps.map (·.id) = world.files.map (·.id) := by
      have hFresh := congrArg (List.map (·.id)) hKept.loaded
      rwa [List.map_map, MapFiles.load, List.map_map] at hFresh
    rw [hIds]
    exact world.numbered
  rw [← hKept.loaded, restoreMapState_dump hNumbered (fun map hMap => (hKept.kept map hMap).firstOnly),
    List.forall₂_map_right_iff, List.forall₂_same]
  exact forall₂_congr fun map hMap => sameContents_restored (hKept.kept map hMap)

section Sample

/-- One map, with a chest that an item spawns in. -/
def cellar : MapFiles where
  cfg := smallCellar
  chestSlots := 5
  files := [⟨1, [(5, 6)], [⟨5, 6, 1, 2, 10⟩]⟩]
  numbered := List.nodup_singleton _

def spawnEvent : MapEvent := .spawn ⟨1, [(5, 6)], [⟨5, 6, 1, 2, 10⟩]⟩ ⟨5, 6, 1, 2, 10⟩

def addEvent (item amount : Int) : MapEvent :=
  .request 1 (holding .npc [.of item amount]) idle (.add 5 6 item amount)

/-- The chest with some entries. -/
def filled (items : List MapChestItem) : List GameMap := [⟨1, [], [⟨5, 6, items, 1, 1000, 5⟩]⟩]

theorem dump_restores_iff_otherItem :
    List.Forall₂ SameContents (filled [⟨.of 2 10, 1⟩, ⟨.of 3 4, 0⟩])
        (restoreMapState (dumpToFile [] [] (filled [⟨.of 2 10, 1⟩, ⟨.of 3 4, 0⟩]) none) cellar.load) ↔
      ∀ map ∈ filled [⟨.of 2 10, 1⟩, ⟨.of 3 4, 0⟩], ∀ chest ∈ map.chests, Replayable chest :=
  @dump_restores_iff cellar [addEvent 3 4, spawnEvent] _ rfl [] [] none

/-- A user puts in four pieces of an item, and ten spawn in front of them. They come back
as one entry. -/
theorem not_dump_restores_sameItem :
    ∃ maps, General.run (stepMaps cellar) cellar.load [addEvent 2 4, spawnEvent] = some maps ∧
      ¬List.Forall₂ SameContents maps (restoreMapState (dumpToFile [] [] maps none) cellar.load) := by
  refine ⟨filled [⟨.of 2 10, 1⟩, ⟨.of 2 4, 0⟩], rfl, fun hSame => ?_⟩
  cases hSame with
  | cons hMap _ =>
      cases hMap.chests with
      | cons hChest _ => exact absurd hChest.2.length_eq (by decide)

end Sample

end Etheos.WorldDump
