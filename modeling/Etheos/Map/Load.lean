import Etheos.General.Hoare
import Etheos.Packet.Processor
import Etheos.Stores.ChestSpawns

/-! Map files. A file is read piece by piece into a map, and what has been read stays there when a
piece is missing. -/
namespace Etheos.MapFiles

open General

/-- The code of `Map_Tile::TileSpec`. -/
abbrev TileSpec := Int

def TileSpec.none : TileSpec := -1

def TileSpec.chest : TileSpec := 9

def TileSpec.spikes1 : TileSpec := 34

structure Warp where
  map : Int
  x : Nat
  y : Nat
  levelreq : Nat
  spec : Nat
  isOpen : Bool
  deriving DecidableEq

structure Tile where
  tilespec : TileSpec
  warp : Warp
  deriving DecidableEq

def Tile.start : Tile := ⟨TileSpec.none, ⟨0, 0, 0, 0, 0, false⟩⟩

structure Chest extends ChestSpawns.Chest where
  key : Int
  deriving DecidableEq

/-- What the constructor of an NPC is given. -/
structure NpcSpawn where
  id : Int
  spawnX : Nat
  spawnY : Nat
  spawnType : Nat
  spawnTime : Int
  index : Int
  deriving DecidableEq

/-- The arena and the wedding are made from other files than that of the map. -/
structure Map (N C A W : Type) where
  id : Int
  rid : Bytes
  pk : Bool
  effect : Nat
  filesize : Nat
  width : Nat
  height : Nat
  scroll : Bool
  relogX : Nat
  relogY : Nat
  loaded : Bool
  hasTimedSpikes : Bool
  characters : List C
  npcs : List N
  chests : List Chest
  tiles : List Tile
  arena : Option A
  wedding : Option W

/-- The files, the options, and what is done outside of `Load`. -/
structure World (N C A W : Type) where
  files : Int → Option Bytes
  limits : ChestSpawns.Limits
  now : ℚ
  random : Nat → UInt32
  /-- The constructor of an NPC and `Spawn`. -/
  newNpc : Map N C A W → NpcSpawn → N
  loadArena : Map N C A W → Option A
  loadWedding : Map N C A W → Option W

variable {N C A W : Type}

namespace Map

variable (map : Map N C A W)

def inBounds (x y : Nat) : Bool := !(x ≥ map.width || y ≥ map.height)

/-- `GetTile`, which throws for a place outside the map. There may be no tile at the index. -/
def getTile (x y : Nat) : Except Unit (Option Tile) :=
  if map.inBounds x y then .ok map.tiles[y * map.width + x]? else .error ()

def setTile (x y : Nat) (f : Tile → Tile) : Map N C A W :=
  { map with tiles := map.tiles.modify (y * map.width + x) f }

def unload : Map N C A W :=
  { map with loaded := false, npcs := [], arena := none, wedding := none, chests := [], tiles := [] }

/-- `tiles.resize`, which keeps the tiles that are there. -/
def resize (width height : Nat) : Map N C A W :=
  { map with
    width := width
    height := height
    tiles := map.tiles.take (height * width) ++ List.replicate (height * width - map.tiles.length) Tile.start }

def setSpec (limits : ChestSpawns.Limits) (x y : Nat) (spec : TileSpec) : Map N C A W :=
  { map.setTile x y fun tile => { tile with tilespec := spec } with
    chests := if spec = TileSpec.chest then map.chests ++ [⟨ChestSpawns.emptyChest limits x y, 0⟩] else map.chests
    hasTimedSpikes := map.hasTimedSpikes || spec = TileSpec.spikes1 }

/-- A spawn goes to the first chest at its place. -/
def addSpawn (limits : ChestSpawns.Limits) (now : ℚ) (key : Int) (record : ChestSpawns.SpawnRecord) : Map N C A W :=
  { map with
    chests := Entries.modifyFirst (fun chest : Chest => chest.x = record.x ∧ chest.y = record.y)
      (fun chest => ⟨chest.toChest.addSpawn limits now record, if 0 < key then key else chest.key⟩) map.chests }

end Map

/-- A file is open. `index` is that of the next NPC, and `drawn` counts the random numbers. -/
structure Reading (N C A W : Type) where
  map : Map N C A W
  pos : Nat
  index : Int
  drawn : Nat

/-- `return false` is an exception. -/
abbrev Prog (N C A W : Type) := EStateM Unit (Reading N C A W)

section Pieces

variable (world : World N C A W) (file : Bytes)

/-- `SAFE_SEEK`. There is no limit at the end of a file. -/
def seek (offset : Nat) : Prog N C A W PUnit := modify fun s => { s with pos := offset }

def skip (count : Nat) : Prog N C A W PUnit := modify fun s => { s with pos := s.pos + count }

/-- `SAFE_READ` -/
def read (count : Nat) : Prog N C A W Bytes := do
  let s ← get
  if s.pos + count ≤ file.length then
    skip count
    return (file.drop s.pos).take count
  else throw ()

def change (f : Map N C A W → Map N C A W) : Prog N C A W PUnit := modify fun s => { s with map := f s.map }

def times (body : Prog N C A W PUnit) : Nat → Prog N C A W PUnit
  | 0 => pure ⟨⟩
  | n + 1 => body >>= fun _ => times body n

/-- `PacketProcessor::Number` of the bytes from a place on. -/
def number1 (buf : Bytes) (i : Nat) : Nat := PacketProcessor.number (buf.getD i 254) 254 254 254

def number2 (buf : Bytes) (i : Nat) : Nat :=
  PacketProcessor.number (buf.getD i 254) (buf.getD (i + 1) 254) 254 254

def number3 (buf : Bytes) (i : Nat) : Nat :=
  PacketProcessor.number (buf.getD i 254) (buf.getD (i + 1) 254) (buf.getD (i + 2) 254) 254

/-- The bytes that there are stay in `rid` when there are too few. -/
def readRid : Prog N C A W PUnit := do
  seek 0x03
  let s ← get
  let got := (file.drop s.pos).take 4
  change fun map => { map with rid := got ++ map.rid.drop got.length }
  if s.pos + 4 ≤ file.length then skip 4 else throw ()

def readHeader : Prog N C A W PUnit := do
  seek 0x1F
  let buf ← read file 2
  change fun map => { map with pk := number1 buf 0 == 3, effect := number1 buf 1 }

def readSize : Prog N C A W PUnit := do
  seek 0x25
  let buf ← read file 2
  change fun map => map.resize (number1 buf 0 + 1) (number1 buf 1 + 1)

def readRelog : Prog N C A W PUnit := do
  seek 0x2A
  let buf ← read file 3
  change fun map =>
    { map with scroll := number1 buf 0 != 0, relogX := number1 buf 1, relogY := number1 buf 2 }

/-- A list of rows of a size is passed by. -/
def skipRows (size : Nat) : Prog N C A W PUnit := do
  let buf ← read file 1
  skip (size * number1 buf 0)

def readSpec (y : Nat) : Prog N C A W PUnit := do
  let buf ← read file 2
  let s ← get
  if s.map.inBounds (number1 buf 0) y then
    change fun map => map.setSpec world.limits (number1 buf 0) y (number1 buf 1)
  else pure ⟨⟩

def readWarp (y : Nat) : Prog N C A W PUnit := do
  let buf ← read file 8
  let s ← get
  if s.map.inBounds (number1 buf 0) y then
    change fun map => map.setTile (number1 buf 0) y fun tile =>
      { tile with
        warp := ⟨Characters.toShort (number2 buf 1), number1 buf 3, number1 buf 4, number1 buf 5, number2 buf 6, false⟩ }
  else pure ⟨⟩

/-- A row of the map, with its number first. -/
def readRow (readTile : Nat → Prog N C A W PUnit) : Prog N C A W PUnit := do
  let buf ← read file 2
  times (readTile (number1 buf 0)) (number1 buf 1)

/-- As many rows as the byte at the place says. -/
def readRows (row : Prog N C A W PUnit) : Prog N C A W PUnit := do
  let buf ← read file 1
  times row (number1 buf 0)

def newNpc (spawn : Int → NpcSpawn) : Prog N C A W PUnit := do
  let s ← get
  let npc := spawn s.index
  if s.map.inBounds npc.spawnX npc.spawnY then
    modify fun s =>
      { s with map := { s.map with npcs := s.map.npcs ++ [world.newNpc s.map npc] }, index := s.index + 1 }
  else pure ⟨⟩

def readNpc : Prog N C A W PUnit := do
  let buf ← read file 8
  times
    (newNpc world fun index =>
      ⟨Characters.toShort (number2 buf 2), number1 buf 0, number1 buf 1, number1 buf 4,
        Characters.toShort (number2 buf 5), index⟩)
    (number1 buf 7)

def placeSpawn (key : Int) (record : UInt32 → ChestSpawns.SpawnRecord) : Prog N C A W PUnit := do
  let s ← get
  modify fun s => { s with drawn := s.drawn + 1 }
  change fun map => map.addSpawn world.limits world.now key (record (world.random s.drawn))

/-- A spawn without an amount is left out. -/
def readSpawn : Prog N C A W PUnit := do
  let buf ← read file 12
  if number3 buf 9 = 0 then pure ⟨⟩
  else
    placeSpawn world (Characters.toShort (number2 buf 2)) fun random =>
      ⟨number1 buf 0, number1 buf 1, number1 buf 4, .of (Characters.toShort (number2 buf 5)) (number3 buf 9),
        Characters.toShort (number2 buf 7), random⟩

/-- The file from its start to its end. -/
def readFile : Prog N C A W PUnit := do
  readRid file
  readHeader file
  readSize file
  readRelog file
  seek 0x2E
  skipRows file 8
  skipRows file 4
  skipRows file 12
  readRows file (readRow file (readSpec world file))
  readRows file (readRow file (readWarp file))
  seek 0x2E
  readRows file (readNpc world file)
  skipRows file 4
  readRows file (readSpawn world file)
  change fun map => { map with filesize := file.length, loaded := true }

end Pieces

namespace Map

variable (world : World N C A W) (map : Map N C A W)

def load : Bool × Map N C A W :=
  if map.id < 0 then (false, map)
  else
    match world.files map.id with
    | none => (false, map)
    | some file =>
        match readFile world file ⟨{ map with hasTimedSpikes := false }, 0, 0, 0⟩ with
        | .ok _ s => (true, s.map)
        | .error _ s => (false, s.map)

def reload : Bool × Map N C A W :=
  match world.files map.id with
  | none => (false, map)
  | some file =>
      if file.length < 7 then (false, map)
      else if (file.drop 3).take 4 = map.rid then (true, map)
      else
        let result := map.unload.load world
        if result.1 then
          let map' := { result.2 with arena := world.loadArena result.2 }
          (true, { map' with wedding := world.loadWedding map', characters := map.characters, loaded := true })
        else (false, result.2)

end Map

section Sizes

/-- There is a tile for each place. -/
structure Sized (map : Map N C A W) : Prop where
  width : 1 ≤ map.width
  height : 1 ≤ map.height
  tiles : map.tiles.length = map.width * map.height

def Emptied (map : Map N C A W) : Prop := map.tiles = []

/-- An assertion about the map that is read. -/
def OnMap (P : Map N C A W → Prop) (s : Reading N C A W) : Prop := P s.map

/-- It has nothing to do with the place in the file. -/
class Steady (R : Reading N C A W → Prop) : Prop where
  move {s : Reading N C A W} : R s → ∀ pos, R { s with pos := pos }

instance (P : Map N C A W → Prop) : Steady (OnMap P) := ⟨fun h _ => h⟩

theorem Sized.getTile {map : Map N C A W} (h : Sized map) {x y : Nat} (hIn : map.inBounds x y) :
    ∃ tile, map.getTile x y = .ok (some tile) := by
  obtain ⟨hx, hy⟩ : x < map.width ∧ y < map.height := by simpa [Map.inBounds] using hIn
  have hIndex : y * map.width + x < map.tiles.length := by
    calc y * map.width + x < y * map.width + map.width := by omega
      _ = (y + 1) * map.width := by ring
      _ ≤ map.height * map.width := Nat.mul_le_mul_right _ hy
      _ = map.tiles.length := by rw [h.tiles, Nat.mul_comm]
  exact ⟨map.tiles[y * map.width + x], by simp [Map.getTile, hIn, hIndex]⟩

theorem Sized.setTile {map : Map N C A W} (h : Sized map) (x y : Nat) (f : Tile → Tile) : Sized (map.setTile x y f) :=
  ⟨h.width, h.height, by simpa [Map.setTile] using h.tiles⟩

variable {P : Map N C A W → Prop} {world : World N C A W} {file : Bytes}

section Combinators

variable {R : Reading N C A W → Prop}

theorem keeps_seek [Steady R] (offset : Nat) : Keeps R (seek offset) := .modify fun _ hs => Steady.move hs _

theorem keeps_skip [Steady R] (count : Nat) : Keeps R (skip count) := .modify fun _ hs => Steady.move hs _

theorem keeps_read [Steady R] (count : Nat) : Keeps R (read file count) :=
  .read fun _ => .branch (.bind (keeps_skip count) fun _ => .ret) .raise

theorem keeps_times {body : Prog N C A W PUnit} (h : Keeps R body) (n : Nat) : Keeps R (times body n) := by
  induction n with
  | zero => exact .ret
  | succ n ih => exact .bind h fun _ => ih

theorem keeps_skipRows [Steady R] (size : Nat) : Keeps R (skipRows file size) :=
  .bind (keeps_read 1) fun _ => keeps_skip _

theorem keeps_readRows [Steady R] {row : Prog N C A W PUnit} (h : Keeps R row) : Keeps R (readRows file row) :=
  .bind (keeps_read 1) fun _ => keeps_times h _

theorem keeps_readRow [Steady R] {readTile : Nat → Prog N C A W PUnit} (h : ∀ y, Keeps R (readTile y)) :
    Keeps R (readRow file readTile) :=
  .bind (keeps_read 2) fun _ => keeps_times (h _) _

theorem keeps_readRid [Steady R]
    (h : ∀ got : Bytes, Keeps R (change fun map => { map with rid := got ++ map.rid.drop got.length })) :
    Keeps R (readRid file) :=
  .bind (keeps_seek _) fun _ => .read fun _ => .bind (h _) fun _ => .branch (keeps_skip _) .raise

theorem keeps_readHeader [Steady R] (h : ∀ pk effect, Keeps R (change fun map => { map with pk, effect })) :
    Keeps R (readHeader file) :=
  .bind (keeps_seek _) fun _ => .bind (keeps_read _) fun _ => h _ _

theorem keeps_readRelog [Steady R]
    (h : ∀ scroll relogX relogY, Keeps R (change fun map => { map with scroll, relogX, relogY })) :
    Keeps R (readRelog file) :=
  .bind (keeps_seek _) fun _ => .bind (keeps_read _) fun _ => h _ _ _

theorem keeps_readSpec [Steady R] (h : ∀ x y spec, Keeps R (change fun map => map.setSpec world.limits x y spec))
    (y : Nat) : Keeps R (readSpec world file y) :=
  .bind (keeps_read 2) fun _ => .read fun _ => .branch (h _ _ _) .ret

theorem keeps_readWarp [Steady R] (h : ∀ x y f, Keeps R (change fun map => map.setTile x y f)) (y : Nat) :
    Keeps R (readWarp file y) :=
  .bind (keeps_read 8) fun _ => .read fun _ => .branch (h _ _ _) .ret

theorem keeps_readNpc [Steady R]
    (h : ∀ spawn, (∀ index, (spawn index).index = index) → Keeps R (newNpc world spawn)) :
    Keeps R (readNpc world file) :=
  .bind (keeps_read 8) fun _ => keeps_times (h _ fun _ => rfl) _

theorem keeps_readSpawn [Steady R] (h : ∀ key record, Keeps R (placeSpawn world key record)) :
    Keeps R (readSpawn world file) :=
  .bind (keeps_read 12) fun _ => .branch .ret (h _ _)

/-- The pieces of the file behind the size of the map. -/
theorem keeps_behindSize [Steady R]
    (hRelog : ∀ scroll relogX relogY, Keeps R (change fun map => { map with scroll, relogX, relogY }))
    (hSpec : ∀ x y spec, Keeps R (change fun map => map.setSpec world.limits x y spec))
    (hWarp : ∀ x y f, Keeps R (change fun map => map.setTile x y f))
    (hNpc : ∀ spawn, (∀ index, (spawn index).index = index) → Keeps R (newNpc world spawn))
    (hSpawn : ∀ key record, Keeps R (placeSpawn world key record))
    (hEnd : Keeps R (change fun map => { map with filesize := file.length, loaded := true })) :
    Keeps R (do
      readRelog file
      seek 0x2E
      skipRows file 8
      skipRows file 4
      skipRows file 12
      readRows file (readRow file (readSpec world file))
      readRows file (readRow file (readWarp file))
      seek 0x2E
      readRows file (readNpc world file)
      skipRows file 4
      readRows file (readSpawn world file)
      change fun map => { map with filesize := file.length, loaded := true }) := by
  have hSpecs : Keeps R (readRows file (readRow file (readSpec world file))) :=
    keeps_readRows (keeps_readRow (keeps_readSpec hSpec))
  have hWarps : Keeps R (readRows file (readRow file (readWarp file))) :=
    keeps_readRows (keeps_readRow (keeps_readWarp hWarp))
  exact .bind (keeps_readRelog hRelog) fun _ => .bind (keeps_seek _) fun _ => .bind (keeps_skipRows 8) fun _ =>
    .bind (keeps_skipRows 4) fun _ => .bind (keeps_skipRows 12) fun _ => .bind hSpecs fun _ => .bind hWarps fun _ =>
    .bind (keeps_seek _) fun _ => .bind (keeps_readRows (keeps_readNpc hNpc)) fun _ => .bind (keeps_skipRows 4) fun _ =>
    .bind (keeps_readRows (keeps_readSpawn hSpawn)) fun _ => hEnd

end Combinators

theorem keeps_change {f : Map N C A W → Map N C A W} (h : ∀ map, P map → P (f map)) : Keeps (OnMap P) (change f) :=
  .modify fun s hs => h s.map hs

/-- What has nothing to do with the tiles leaves a map sized. -/
theorem Sized.same {map map' : Map N C A W} (h : Sized map) (hWidth : map'.width = map.width)
    (hHeight : map'.height = map.height) (hTiles : map'.tiles = map.tiles) : Sized map' := by
  constructor
  · rw [hWidth]
    exact h.width
  · rw [hHeight]
    exact h.height
  · rw [hTiles, hWidth, hHeight]
    exact h.tiles

theorem sized_newNpc (spawn : Int → NpcSpawn) : Keeps (OnMap Sized) (newNpc world spawn) := by
  refine .read fun s => .branch (.modify fun s hs => ?_) .ret
  exact Sized.same hs rfl rfl rfl

theorem sized_placeSpawn (key : Int) (record : UInt32 → ChestSpawns.SpawnRecord) :
    Keeps (OnMap Sized) (placeSpawn world key record) := by
  refine .read fun s => .bind (.modify fun s hs => ?_) fun _ => keeps_change fun map h => h.same rfl rfl rfl
  exact Sized.same hs rfl rfl rfl

theorem emptied_readRid : Keeps (OnMap (Emptied (N := N) (C := C) (A := A) (W := W))) (readRid file) :=
  keeps_readRid fun _ => keeps_change fun _ (h : _ = []) => h

theorem emptied_readHeader : Keeps (OnMap (Emptied (N := N) (C := C) (A := A) (W := W))) (readHeader file) :=
  keeps_readHeader fun _ _ => keeps_change fun _ (h : _ = []) => h

theorem resize_sized {map : Map N C A W} (h : Emptied map) (width height : Nat) :
    Sized (map.resize (width + 1) (height + 1)) := by
  have hTiles : map.tiles = [] := h
  exact ⟨by simp [Map.resize], by simp [Map.resize], by simp [Map.resize, hTiles, Nat.mul_comm]⟩

theorem triple_readSize : Triple (OnMap (Emptied (N := N) (C := C) (A := A) (W := W))) (readSize file)
    (fun _ => OnMap Sized) (fun _ => OnMap Emptied) :=
  Triple.seq (keeps_seek _) (Triple.bind (keeps_read _) fun _ => .modify fun _ h => resize_sized h _ _)

/-- From the size on there is a tile for each place, and before it there is none. -/
theorem triple_readFile : Triple (OnMap Emptied) (readFile world file) (fun _ => OnMap Sized)
    (fun _ => OnMap fun map => Emptied map ∨ Sized map) := by
  have hStart : ∀ {x : Prog N C A W PUnit} {Q : PUnit → Reading N C A W → Prop},
      Triple (OnMap Emptied) x Q (fun _ => OnMap Emptied) →
        Triple (OnMap Emptied) x Q (fun _ => OnMap fun map => Emptied map ∨ Sized map) :=
    fun h => h.conseq (fun _ => id) (fun _ _ => id) fun _ _ => .inl
  have hRest : ∀ {x : Prog N C A W PUnit}, Keeps (OnMap Sized) x →
      Triple (OnMap Sized) x (fun _ => OnMap Sized) (fun _ => OnMap fun map => Emptied map ∨ Sized map) :=
    fun h => h.conseq (fun _ => id) (fun _ _ => id) fun _ _ => .inr
  refine (hStart emptied_readRid).seq ((hStart emptied_readHeader).seq ((hStart triple_readSize).seq (hRest ?_)))
  refine keeps_behindSize (fun _ _ _ => ?_) (fun _ _ _ => ?_) (fun _ _ _ => ?_) (fun spawn _ => sized_newNpc spawn)
    sized_placeSpawn ?_
  · exact keeps_change fun _ h => h.same rfl rfl rfl
  · exact keeps_change fun _ h => ⟨h.width, h.height, (h.setTile _ _ _).tiles⟩
  · exact keeps_change fun _ h => h.setTile _ _ _
  · exact keeps_change fun _ h => h.same rfl rfl rfl

variable (world) in
theorem load_sized {map : Map N C A W} (h : Emptied map) :
    if (map.load world).1 then Sized (map.load world).2 else Emptied (map.load world).2 ∨ Sized (map.load world).2 := by
  unfold Map.load
  split
  · exact .inl h
  · split
    · exact .inl h
    case h_2 file hFile =>
      have hRead : Triple (OnMap Emptied) (readFile world file) _ _ := triple_readFile
      have hResult := hRead ⟨{ map with hasTimedSpikes := false }, 0, 0, 0⟩ (h : _ = [])
      split
      case h_1 hRead =>
        rw [hRead] at hResult
        exact hResult
      case h_2 hRead =>
        rw [hRead] at hResult
        exact hResult

end Sizes

section Reload

variable (world : World N C A W)

/-- After a reload the map is whole, and it is the one before if the reload has failed. -/
structure Usable (before : Map N C A W) (result : Bool × Map N C A W) : Prop where
  size : result.2.tiles.length = result.2.width * result.2.height
  getTile : ∀ x y, result.2.inBounds x y → ∃ tile, result.2.getTile x y = .ok (some tile)
  kept : result.1 = false →
    result.2.tiles = before.tiles ∧ result.2.npcs = before.npcs ∧ result.2.chests = before.chests

/-- The new file is whole, or it says up to where it breaks off what the map has already. -/
def Fits (map : Map N C A W) : Prop :=
  let read := map.unload.load world
  read.1 ∨ read.2.tiles = map.tiles ∧ read.2.npcs = map.npcs ∧ read.2.chests = map.chests

/-- The new file is not looked at or fits. -/
def Spared (map : Map N C A W) : Prop :=
  ∀ file ∈ world.files map.id, file.length < 7 ∨ (file.drop 3).take 4 = map.rid ∨ Fits world map

variable {world} {map : Map N C A W}

theorem Usable.refl (h : Sized map) (ok : Bool) : Usable map (ok, map) :=
  ⟨h.tiles, fun _ _ hIn => h.getTile hIn, fun _ => ⟨rfl, rfl, rfl⟩⟩

theorem reload_of_none (h : world.files map.id = none) : map.reload world = (false, map) := by
  simp [Map.reload, h]

theorem reload_of_short {file : Bytes} (h : world.files map.id = some file) (hShort : file.length < 7) :
    map.reload world = (false, map) := by
  simp [Map.reload, h, hShort]

theorem reload_of_same {file : Bytes} (h : world.files map.id = some file) (hLong : ¬file.length < 7)
    (hSame : (file.drop 3).take 4 = map.rid) : map.reload world = (true, map) := by
  simp [Map.reload, h, hLong, hSame]

theorem reload_of_whole {file : Bytes} (h : world.files map.id = some file) (hLong : ¬file.length < 7)
    (hNew : (file.drop 3).take 4 ≠ map.rid) (hWhole : (map.unload.load world).1) :
    ∃ map', map.reload world = (true, map') ∧ map'.width = (map.unload.load world).2.width ∧
      map'.height = (map.unload.load world).2.height ∧ map'.tiles = (map.unload.load world).2.tiles := by
  unfold Map.reload
  rw [h]
  dsimp only
  rw [if_neg hLong, if_neg hNew, if_pos hWhole]
  exact ⟨_, rfl, rfl, rfl, rfl⟩

theorem reload_of_broken {file : Bytes} (h : world.files map.id = some file) (hLong : ¬file.length < 7)
    (hNew : (file.drop 3).take 4 ≠ map.rid) (hBroken : ¬(map.unload.load world).1) :
    map.reload world = (false, (map.unload.load world).2) := by
  unfold Map.reload
  rw [h]
  dsimp only
  rw [if_neg hLong, if_neg hNew, if_neg hBroken]

/-- A file that breaks off leaves what has been read. -/
theorem usable_broken_iff (h : Sized map) (hBroken : ¬(map.unload.load world).1) :
    Usable map (false, (map.unload.load world).2) ↔ Fits world map := by
  have hLoad := load_sized world (show Emptied map.unload from rfl)
  rw [if_neg hBroken] at hLoad
  constructor
  · intro hUsable
    exact .inr (hUsable.kept rfl)
  · intro hFits
    have hSame := hFits.resolve_left hBroken
    have hSized : Sized (map.unload.load world).2 := by
      refine hLoad.resolve_left fun hEmptied => ?_
      have hNone : map.tiles = [] := hSame.1.symm.trans hEmptied
      have hLength := h.tiles
      rw [hNone] at hLength
      exact absurd hLength.symm (Nat.mul_pos h.width h.height).ne'
    exact ⟨hSized.tiles, fun _ _ hIn => hSized.getTile hIn, fun _ => hSame⟩

theorem isInt_zero : Characters.IsInt 0 := by decide

/-- A map of one tile, and a file that ends behind its `rid`. -/
def brokenWorld : World Unit Unit Unit Unit where
  files _ := some [69, 77, 70, 9, 9, 9, 9]
  limits := ⟨0, 0, isInt_zero, 0, false⟩
  now := 0
  random _ := 0
  newNpc _ _ := ()
  loadArena _ := none
  loadWedding _ := none

def oneTile : Map Unit Unit Unit Unit where
  id := 1
  rid := [1, 1, 1, 1]
  pk := false
  effect := 0
  filesize := 50
  width := 1
  height := 1
  scroll := false
  relogX := 0
  relogY := 0
  loaded := true
  hasTimedSpikes := false
  characters := [()]
  npcs := []
  chests := []
  tiles := [.start]
  arena := none
  wedding := none

end Reload

end Etheos.MapFiles
