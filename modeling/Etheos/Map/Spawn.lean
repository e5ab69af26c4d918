import Etheos.General.ByteLoop
import Etheos.Map.Walk
import Etheos.Packet.Builder
import Etheos.Stores.ChestSpawns

/-! Where an NPC comes to stand when it spawns. Places around its spawn point are drawn first, and when
none of them will do, the places are gone through one by one. -/
namespace Etheos.Maps

open General
open ChestSpawns (rand)

/-- The order of `DIRECTION_DOWN` and so on. -/
def Direction.ofInt (n : Int) : Direction :=
  if n = 1 then .left else if n = 2 then .up else if n = 3 then .right else .down

def Direction.toByte : Direction → UInt8
  | .down => 0
  | .left => 1
  | .up => 2
  | .right => 3

/-- An NPC with what `Spawn` reads and sets. The constructor cuts `spawnType` off at 7. -/
structure MapNpc extends NPC where
  id : Int
  temporary : Bool
  spawn : Tile
  spawnType : Fin 8
  direction : Direction
  /-- The place of the parent in the list. -/
  parent : Option Nat
  hp : Int
  lastAct : ℚ
  lastTalk : ℚ
  actSpeed : ℚ

/-- `ENF_Data`. -/
structure Enf where
  boss : Bool
  child : Bool
  hp : Int

structure SpawnWorld where
  cfg : MapConfig
  enf : Int → Enf
  speedTable : Fin 8 → ℚ
  now : ℚ
  random : Nat → UInt32

/-- What is written to the console. -/
inductive Report where
  | linearScan (spawn : Tile)
  | placedAt (tile : Tile)
  | nowhereValid
  deriving DecidableEq

/-- A map on which NPCs spawn. `drawn` counts the random numbers. -/
structure Spawning where
  map : GameMap
  npcs : List MapNpc
  drawn : Nat
  sent : List (Nat × PacketBuilder)
  reports : List Report

namespace Spawning

variable (s : Spawning)

/-- The map with its NPCs where they are. -/
def current : GameMap := { s.map with npcs := s.npcs.map (·.toNPC) }

def modifyNpc (i : Nat) (f : MapNpc → MapNpc) : Spawning := { s with npcs := s.npcs.modify i f }

def moveTo (i : Nat) (tile : Tile) : Spawning := s.modifyNpc i fun npc => { npc with tile := tile }

def report (r : Report) : Spawning := { s with reports := s.reports ++ [r] }

/-- What `Walkable` says when the NPC has been put there. -/
def standable (cfg : MapConfig) (i : Nat) (tile : Tile) : Bool := (s.moveTo i tile).current.walkable cfg tile true

end Spawning

section Scan

variable (ok : Tile → Bool) (spawn : Tile)

/-- The inner loop of the scan. The coordinates are bytes, and their bounds are not. -/
def scanColumn (turns : Nat) (x : UInt8) : Option (Bool × UInt8 × Unit) :=
  byteLoop (spawn.y.toNat + 2) (fun y => some (ok ⟨x, y⟩, ())) turns (spawn.y - 2) ()

/-- The body of the outer loop. -/
def scanBody (turns : Nat) (x : UInt8) : Option (Bool × UInt8) :=
  (scanColumn ok spawn turns x).map fun (found, y, _) => (found, y)

/-- The scan of the spawn area, with the `y` that is there before it. -/
def linearScan (turns : Nat) (y : UInt8) : Option (Bool × Tile) :=
  (byteLoop (spawn.x.toNat + 2) (scanBody ok spawn turns) turns (spawn.x - 2) y).map fun (found, x, y) => (found, ⟨x, y⟩)

end Scan

section Spawn

variable (world : SpawnWorld)

def drawTile (spawn : Tile) (s : Spawning) : Tile × Spawning :=
  (⟨UInt8.ofInt (rand (world.random s.drawn) (spawn.x.toNat - 2) (spawn.x.toNat + 2)),
    UInt8.ofInt (rand (world.random (s.drawn + 1)) (spawn.y.toNat - 2) (spawn.y.toNat + 2))⟩,
    { s with drawn := s.drawn + 2 })

/-- A tile that is drawn. Towards the end it may be taken by an NPC. -/
def suits (turn : Nat) (tile : Tile) (s : Spawning) : Bool :=
  s.current.walkable world.cfg tile true && (100 < turn || !s.current.occupiedByNPC tile)

/-- A temporary NPC tries its spawn point first. -/
def candidate (npc : MapNpc) (turn : Nat) (s : Spawning) : Tile × Spawning :=
  if npc.temporary ∧ turn = 0 then (npc.spawn, s) else drawTile world npc.spawn s

def drawDirection (i : Nat) (s : Spawning) : Spawning :=
  { s.modifyNpc i fun npc => { npc with direction := .ofInt (rand (world.random s.drawn) 0 3) } with
    drawn := s.drawn + 1 }

/-- The loop of the draws, with the turns that are left. -/
def placeAtRandom (npc : MapNpc) (i : Nat) : Nat → Nat → Spawning → Bool × Spawning
  | 0, _, s => (false, s)
  | left + 1, turn, s =>
      let (tile, s) := candidate world npc turn s
      let s := s.moveTo i tile
      if suits world turn tile s then (true, drawDirection world i s) else placeAtRandom npc i left (turn + 1) s

/-- `found`, and the map after the draws and the scan. The scan may go on for ever. -/
def place (turns : Nat) (npc : MapNpc) (i : Nat) (s : Spawning) : Option (Bool × Spawning) :=
  match placeAtRandom world npc i 200 0 s with
  | (true, s) => some (true, s)
  | (false, s) =>
      let s := s.report (.linearScan npc.spawn)
      let y := (s.npcs[i]?.map (·.tile.y)).getD npc.spawn.y
      (linearScan (s.standable world.cfg i) npc.spawn turns y).map fun (found, tile) =>
        (found, if found then (s.moveTo i tile).report (.placedAt tile) else s.moveTo i tile)

/-- The packet that shows the NPC. -/
def spawnPacket (npc : MapNpc) : PacketBuilder :=
  ((((((PacketBuilder.new 29 3).addChar 0).addByte 255).addChar (UInt8.ofNat npc.index)).addShort
    (UInt16.ofInt npc.id)).addChar npc.tile.x).addChar npc.tile.y |>.addChar npc.direction.toByte

/-- The NPC is alive, and those who see it are told. -/
def wake (i : Nat) (s : Spawning) : Spawning :=
  let s := s.modifyNpc i fun npc =>
    { npc with
      alive := true
      hp := (world.enf npc.id).hp
      lastAct := world.now
      lastTalk := world.now
      actSpeed := world.speedTable npc.spawnType }
  match s.npcs[i]? with
  | none => s
  | some npc =>
      { s with
        sent := s.sent ++ ((s.map.characters.filter fun c =>
          !c.nowhere && distance c.tile.coords npc.tile.coords ≤ world.cfg.seeDistance).map
            fun c => (c.playerId, spawnPacket npc)) }

def adopt (i : Nat) (s : Spawning) : Option Nat → Spawning
  | none => s
  | some parent => s.modifyNpc i fun npc => { npc with parent := some parent, hasParent := true }

/-- `Spawn` behind the loop over the children. -/
def settle (turns : Nat) (i : Nat) (parent : Option Nat) (s : Spawning) : Option Spawning :=
  match s.npcs[i]? with
  | none => some s
  | some npc =>
      let s := adopt i s parent
      if npc.spawnType < 7 then
        (place world turns npc i s).map fun (found, s) => wake world i (if found then s else s.report .nowhereValid)
      else some (wake world i s)

/-- `Spawn` with a parent. -/
def spawnChild (turns : Nat) (parent : Nat) (s : Spawning) (i : Nat) : Option Spawning :=
  match s.npcs[i]? with
  | none => some s
  | some npc => if npc.alive ∨ ¬(world.enf npc.id).child then some s else settle world turns i (some parent) s

/-- `NPC::Spawn` without a parent. A boss brings its children with it. -/
def spawn (turns : Nat) (i : Nat) (s : Spawning) : Option Spawning :=
  match s.npcs[i]? with
  | none => some s
  | some npc =>
      if npc.alive then some s
      else do
        let s ← if (world.enf npc.id).boss then (List.range s.npcs.length).foldlM (spawnChild world turns i) s else some s
        settle world turns i none s

end Spawn

/-- Two coordinates are two apart at most. -/
def Close (c d : UInt8) : Prop := d.toNat ≤ c.toNat + 2 ∧ c.toNat ≤ d.toNat + 2

/-- The 5x5 area around a spawn point. -/
def Tile.Close (spawn tile : Tile) : Prop := Maps.Close spawn.x tile.x ∧ Maps.Close spawn.y tile.y

instance (c d : UInt8) : Decidable (Close c d) := inferInstanceAs (Decidable (_ ∧ _))

instance (spawn tile : Tile) : Decidable (spawn.Close tile) := inferInstanceAs (Decidable (_ ∧ _))

section ScanResults

variable {ok : Tile → Bool} {spawn tile : Tile} {turns : Nat} {x y c d : UInt8}

/-- The scan comes to a place that will do. Where a coordinate is so large that its loop has no end, it need
not be a place in the area. -/
def Finds (ok : Tile → Bool) (spawn : Tile) : Prop :=
  2 ≤ spawn.x.toNat ∧ 2 ≤ spawn.y.toNat ∧
    if 253 ≤ spawn.y.toNat then ∃ y, ok ⟨spawn.x - 2, y⟩
    else if 253 ≤ spawn.x.toNat then ∃ x y, Close spawn.y y ∧ ok ⟨x, y⟩
    else ∃ tile, spawn.Close tile ∧ ok tile

/-- The scan comes to its end. -/
def GivesUp (ok : Tile → Bool) (spawn : Tile) : Prop :=
  spawn.x.toNat < 2 ∨
    spawn.x.toNat < 253 ∧ (spawn.y.toNat < 2 ∨ spawn.y.toNat < 253 ∧ ¬∃ tile, spawn.Close tile ∧ ok tile)

theorem toNat_sub_two (c : UInt8) : (c - 2).toNat = (c.toNat + 254) % 256 := by
  rw [UInt8.toNat_sub, Nat.add_comm]
  rfl

/-- In front of 2 the loop starts behind its bound. -/
theorem begins_iff (c : UInt8) : (c - 2).toNat ≤ c.toNat + 2 ↔ 2 ≤ c.toNat := by
  have hc := c.toNat_lt
  rw [toNat_sub_two]
  omega

theorem close_iff (h : 2 ≤ c.toNat) : Close c d ↔ (c - 2).toNat ≤ d.toNat ∧ d.toNat ≤ c.toNat + 2 := by
  have hc := c.toNat_lt
  rw [Close, toNat_sub_two]
  omega

theorem loopEnds_of_scanBody {found : Bool} (h : scanBody ok spawn turns x = some (found, y)) :
    LoopEnds (spawn.y.toNat + 2) (fun y => some (ok ⟨x, y⟩, ())) (spawn.y - 2) () (found, y, ()) := by
  obtain ⟨⟨found', y', _⟩, hLoop, hPair⟩ := Option.map_eq_some_iff.mp h
  obtain ⟨rfl, rfl⟩ := Prod.mk.injEq .. ▸ hPair
  exact loopEnds_of_byteLoop hLoop

theorem loopEnds_of_linearScan {found : Bool} (h : linearScan ok spawn turns y = some (found, tile)) :
    LoopEnds (spawn.x.toNat + 2) (scanBody ok spawn turns) (spawn.x - 2) y (found, tile.x, tile.y) := by
  obtain ⟨⟨found', x', y'⟩, hLoop, hPair⟩ := Option.map_eq_some_iff.mp h
  obtain ⟨rfl, rfl⟩ := Prod.mk.injEq .. ▸ hPair
  exact loopEnds_of_byteLoop hLoop

/-- A column is left at one of its places. -/
theorem scanBody_found (h : scanBody ok spawn turns x = some (true, y)) :
    2 ≤ spawn.y.toNat ∧ ok ⟨x, y⟩ ∧ (spawn.y.toNat < 253 → Close spawn.y y) := by
  have hEnds := loopEnds_of_scanBody h
  obtain ⟨hBegins, hTo, hBody⟩ := hEnds.found
  have hSpawn := (begins_iff spawn.y).mp hBegins
  refine ⟨hSpawn, congrArg Prod.fst (Option.some.inj hBody), fun hSmall => ?_⟩
  exact (close_iff hSpawn).mpr ⟨hEnds.start_le (by omega), hTo⟩

/-- A column that is gone through has no place that will do. -/
theorem scanBody_unfound (h : scanBody ok spawn turns x = some (false, y)) :
    spawn.y.toNat < 253 ∧ ∀ d, 2 ≤ spawn.y.toNat → Close spawn.y d → ok ⟨x, d⟩ = false := by
  obtain ⟨hPast, hAll⟩ := (loopEnds_of_scanBody h).unfound
  have hy := y.toNat_lt
  refine ⟨by omega, fun d hSpawn hClose => ?_⟩
  obtain ⟨hFrom, hTo⟩ := (close_iff hSpawn).mp hClose
  obtain ⟨_, hBody⟩ := hAll d hFrom hTo
  exact congrArg Prod.fst (Option.some.inj hBody)

theorem scanBody_isSome (hSmall : spawn.y.toNat < 253) (x : UInt8) : (scanBody ok spawn 256 x).isSome := by
  have hEnds : ∃ result, scanColumn ok spawn 256 x = some result :=
    byteLoop_ends (by omega) (fun _ => rfl) (by omega) (by omega)
  obtain ⟨result, hColumn⟩ := hEnds
  rw [scanBody, hColumn]
  rfl

/-- Where the loop over a column has no end, it is left or goes on for ever. -/
theorem scanBody_column (hLarge : 253 ≤ spawn.y.toNat) :
    Leaves (scanBody ok spawn 256) x ↔ ∃ y, ok ⟨x, y⟩ := by
  constructor
  · rintro ⟨y, hFound⟩
    exact ⟨y, (scanBody_found hFound).2.1⟩
  · rintro ⟨y, hy⟩
    have hLeft : ∃ c s', scanColumn ok spawn 256 x = some (true, c, s') :=
      (byteLoop_left_iff_of_large (by omega) fun _ => rfl).mpr ⟨y, (), congrArg (fun found => some (found, ())) hy⟩
    obtain ⟨c, s', hColumn⟩ := hLeft
    exact ⟨c, by rw [scanBody, hColumn]; rfl⟩

theorem scanBody_row (hSpawn : 2 ≤ spawn.y.toNat) (hSmall : spawn.y.toNat < 253) :
    Leaves (scanBody ok spawn 256) x ↔ ∃ y, Close spawn.y y ∧ ok ⟨x, y⟩ := by
  constructor
  · rintro ⟨y, hFound⟩
    obtain ⟨-, hOk, hClose⟩ := scanBody_found hFound
    exact ⟨y, hClose hSmall, hOk⟩
  · rintro ⟨y, hClose, hOk⟩
    obtain hLeaves | ⟨y', hNext⟩ := leaves_or_next (scanBody_isSome hSmall x)
    · exact hLeaves
    · rw [(scanBody_unfound hNext).2 y hSpawn hClose] at hOk
      cases hOk

theorem linearScan_found (h : linearScan ok spawn turns y = some (true, tile)) : Finds ok spawn ∧ ok tile := by
  have hEnds := loopEnds_of_linearScan h
  obtain ⟨hBegins, hTo, hBody⟩ := hEnds.found
  have hX := (begins_iff spawn.x).mp hBegins
  obtain ⟨hY, hOk, hClose⟩ := scanBody_found hBody
  refine ⟨⟨hX, hY, ?_⟩, hOk⟩
  split
  case isTrue hLarge =>
    -- The first column has no end but where it is left.
    obtain ⟨found, d, hFirst⟩ := hEnds.first hBegins
    cases found with
    | true => exact ⟨d, (scanBody_found hFirst).2.1⟩
    | false => exact absurd (scanBody_unfound hFirst).1 (Nat.not_lt.mpr hLarge)
  case isFalse hSmall =>
    have hCloseY := hClose (Nat.not_le.mp hSmall)
    split
    case isTrue => exact ⟨tile.x, tile.y, hCloseY, hOk⟩
    case isFalse hSmallX =>
      have hFrom := hEnds.start_le (by omega)
      exact ⟨tile, ⟨(close_iff hX).mpr ⟨hFrom, hTo⟩, hCloseY⟩, hOk⟩

theorem linearScan_unfound (h : linearScan ok spawn turns y = some (false, tile)) : GivesUp ok spawn := by
  obtain ⟨hPast, hAll⟩ := (loopEnds_of_linearScan h).unfound
  have hx := tile.x.toNat_lt
  by_cases hX : spawn.x.toNat < 2
  · exact .inl hX
  · have hBegins := (begins_iff spawn.x).mpr (Nat.not_lt.mp hX)
    obtain ⟨_, hFirst⟩ := hAll _ (Nat.le_refl _) hBegins
    refine .inr ⟨by omega, ?_⟩
    by_cases hY : spawn.y.toNat < 2
    · exact .inl hY
    · refine .inr ⟨(scanBody_unfound hFirst).1, ?_⟩
      rintro ⟨⟨c, d⟩, ⟨hCloseX, hCloseY⟩, hOk⟩
      obtain ⟨hFrom, hTo⟩ := (close_iff (Nat.not_lt.mp hX)).mp hCloseX
      obtain ⟨_, hColumn⟩ := hAll c hFrom hTo
      rw [(scanBody_unfound hColumn).2 d (Nat.not_lt.mp hY) hCloseY] at hOk
      cases hOk

theorem linearScan_finds (h : Finds ok spawn) (y : UInt8) : ∃ tile, linearScan ok spawn 256 y = some (true, tile) := by
  obtain ⟨hX, hY, hThere⟩ := h
  have hBegins := (begins_iff spawn.x).mpr hX
  suffices hLeft : ∃ c d, byteLoop (spawn.x.toNat + 2) (scanBody ok spawn 256) 256 (spawn.x - 2) y = some (true, c, d) by
    obtain ⟨c, d, hLoop⟩ := hLeft
    exact ⟨⟨c, d⟩, by rw [linearScan, hLoop]; rfl⟩
  split at hThere
  case isTrue hLarge =>
    obtain ⟨d, hFirst⟩ := (scanBody_column hLarge).mpr hThere
    exact ⟨spawn.x - 2, d, byteLoop_left hBegins hFirst⟩
  case isFalse hSmall =>
    have hBody : ∀ c, (scanBody ok spawn 256 c).isSome := scanBody_isSome (Nat.not_le.mp hSmall)
    split at hThere
    case isTrue hLargeX =>
      obtain ⟨c, hRow⟩ := hThere
      exact (byteLoop_left_iff_of_large (by omega) hBody).mpr ⟨c, (scanBody_row hY (Nat.not_le.mp hSmall)).mpr hRow⟩
    case isFalse hSmallX =>
      obtain ⟨⟨c, d⟩, ⟨hCloseX, hCloseY⟩, hOk⟩ := hThere
      obtain ⟨hFrom, hTo⟩ := (close_iff hX).mp hCloseX
      exact (byteLoop_left_iff (by omega) hBody).mpr
        ⟨c, hFrom, hTo, (scanBody_row hY (Nat.not_le.mp hSmall)).mpr ⟨d, hCloseY, hOk⟩⟩

theorem Finds.not_givesUp (h : Finds ok spawn) : ¬GivesUp ok spawn := by
  obtain ⟨hX, hY, hThere⟩ := h
  rintro (hX' | ⟨hSmallX, hY' | ⟨hSmallY, hNone⟩⟩)
  · omega
  · omega
  · rw [if_neg (by omega), if_neg (by omega)] at hThere
    exact hNone hThere

theorem linearScan_givesUp (h : GivesUp ok spawn) (y : UInt8) : ∃ tile, linearScan ok spawn 256 y = some (false, tile) := by
  by_cases hX : spawn.x.toNat < 2
  · have hPast : spawn.x.toNat + 2 < (spawn.x - 2).toNat := by
      have hBegins := begins_iff spawn.x
      omega
    exact ⟨⟨spawn.x - 2, y⟩, by rw [linearScan, byteLoop_past hPast]; rfl⟩
  · have hSmall : spawn.x.toNat < 253 ∧ spawn.y.toNat < 253 := by
      rcases h with hX' | ⟨hSmallX, hY | ⟨hSmallY, -⟩⟩
      · exact absurd hX' hX
      · exact ⟨hSmallX, by omega⟩
      · exact ⟨hSmallX, hSmallY⟩
    have hEnds : ∃ result, byteLoop (spawn.x.toNat + 2) (scanBody ok spawn 256) 256 (spawn.x - 2) y = some result :=
      byteLoop_ends (by omega) (scanBody_isSome hSmall.2) (by omega) (by omega)
    obtain ⟨⟨found, c, d⟩, hLoop⟩ := hEnds
    have hScan : linearScan ok spawn 256 y = some (found, ⟨c, d⟩) := by
      rw [linearScan, hLoop]
      rfl
    cases found with
    | true => exact absurd h (linearScan_found hScan).1.not_givesUp
    | false => exact ⟨_, hScan⟩

end ScanResults

section Standing

variable {cfg : MapConfig} {s : Spawning} {i : Nat} {tile : Tile}

theorem occupiedByNPC_current : s.current.occupiedByNPC tile ↔
    s.map.inBounds tile ∧ ∃ npc ∈ s.npcs, npc.alive ∧ npc.tile = tile := by
  simp [GameMap.occupiedByNPC, Spawning.current, GameMap.inBounds]

theorem getElem?_moveTo (s : Spawning) (i : Nat) (tile : Tile) (j : Nat) : (s.moveTo i tile).npcs[j]? =
    if i = j then s.npcs[j]?.map fun npc => { npc with tile := tile } else s.npcs[j]? := by
  rw [Spawning.moveTo, Spawning.modifyNpc, List.getElem?_modify]
  split <;> simp

/-- Who stands at the tile stands there when the NPC has been put there too. -/
theorem occupiedByNPC_moveTo (h : s.current.occupiedByNPC tile) : (s.moveTo i tile).current.occupiedByNPC tile := by
  obtain ⟨hIn, npc, hMem, hAlive, hTile⟩ := occupiedByNPC_current.mp h
  obtain ⟨j, hj⟩ := List.mem_iff_getElem?.mp hMem
  refine occupiedByNPC_current.mpr ⟨hIn, ?_⟩
  have hMoved := getElem?_moveTo s i tile j
  rw [hj] at hMoved
  by_cases hSame : i = j
  · rw [if_pos hSame] at hMoved
    exact ⟨_, List.mem_of_getElem? hMoved, hAlive, rfl⟩
  · rw [if_neg hSame] at hMoved
    exact ⟨npc, List.mem_of_getElem? hMoved, hAlive, hTile⟩

/-- An NPC that is not alive is in nobody's way. -/
theorem occupiedByNPC_of_moveTo (hDead : ∀ npc, s.npcs[i]? = some npc → npc.alive = false)
    (h : (s.moveTo i tile).current.occupiedByNPC tile) : s.current.occupiedByNPC tile := by
  obtain ⟨hIn, npc, hMem, hAlive, hTile⟩ := occupiedByNPC_current.mp h
  obtain ⟨j, hj⟩ := List.mem_iff_getElem?.mp hMem
  refine occupiedByNPC_current.mpr ⟨hIn, ?_⟩
  rw [getElem?_moveTo] at hj
  split at hj
  case isTrue hSame =>
    obtain ⟨own, hOwn, rfl⟩ := Option.map_eq_some_iff.mp hj
    rw [hDead own (hSame ▸ hOwn)] at hAlive
    cases hAlive
  case isFalse => exact ⟨npc, List.mem_of_getElem? hj, hAlive, hTile⟩

/-- Fewer places that are taken leave more that are free. -/
theorem walkable_mono {map : GameMap} {npcs npcs' : List NPC} {onNpc : Bool}
    (hLess : ({ map with npcs := npcs } : GameMap).occupiedByNPC tile →
      ({ map with npcs := npcs' } : GameMap).occupiedByNPC tile)
    (h : ({ map with npcs := npcs' } : GameMap).walkable cfg tile onNpc) :
    ({ map with npcs := npcs } : GameMap).walkable cfg tile onNpc := by
  rw [GameMap.walkable, Bool.and_eq_true, Bool.not_eq_true', Bool.and_eq_false_imp] at h ⊢
  refine ⟨h.1, fun hArena => ?_⟩
  obtain ⟨hPlayer, hNpc⟩ := Bool.or_eq_false_iff.mp (h.2 hArena)
  refine Bool.or_eq_false_iff.mpr ⟨hPlayer, ?_⟩
  exact Bool.eq_false_iff.mpr fun hTaken => Bool.eq_false_iff.mp hNpc (hLess hTaken)

theorem walkable_of_standable (h : s.standable cfg i tile) : s.current.walkable cfg tile true :=
  walkable_mono occupiedByNPC_moveTo h

theorem standable_of_walkable (hDead : ∀ npc, s.npcs[i]? = some npc → npc.alive = false)
    (h : s.current.walkable cfg tile true) : s.standable cfg i tile :=
  walkable_mono (occupiedByNPC_of_moveTo hDead) h

end Standing

section Places

variable {world : SpawnWorld} {s failed : Spawning} {i : Nat} {npc : MapNpc} {parent : Option Nat}

theorem isSome_modifyNpc (s : Spawning) (i j : Nat) (f : MapNpc → MapNpc) :
    (s.modifyNpc i f).npcs[j]?.isSome = s.npcs[j]?.isSome := by
  rw [Spawning.modifyNpc, List.getElem?_modify]
  split <;> simp

theorem npcs_candidate (turn : Nat) (s : Spawning) : (candidate world npc turn s).2.npcs = s.npcs := by
  rw [candidate]
  split <;> rfl

/-- The draws take no NPC off the map. -/
theorem isSome_placeAtRandom (left turn j : Nat) (s : Spawning) :
    (placeAtRandom world npc i left turn s).2.npcs[j]?.isSome = s.npcs[j]?.isSome := by
  induction left generalizing turn s with
  | zero => rfl
  | succ left ih =>
      have hMoved : ((candidate world npc turn s).2.moveTo i (candidate world npc turn s).1).npcs[j]?.isSome =
          s.npcs[j]?.isSome := by
        rw [Spawning.moveTo, isSome_modifyNpc, npcs_candidate]
      rw [placeAtRandom]
      dsimp only
      split
      · exact (isSome_modifyNpc _ i j _).trans hMoved
      · exact (ih _ _).trans hMoved

/-- The NPC and the scan, behind draws that have failed. -/
structure Fallback (world : SpawnWorld) (s : Spawning) (i : Nat) (parent : Option Nat) (npc : MapNpc)
    (failed : Spawning) : Prop where
  onMap : s.npcs[i]? = some npc
  roams : npc.spawnType < 7
  failed : placeAtRandom world npc i 200 0 (adopt i s parent) = (false, failed)

/-- A place of the area is walkable before the scan. -/
def RoomLeft (world : SpawnWorld) (failed : Spawning) (npc : MapNpc) : Prop :=
  ∃ tile, npc.spawn.Close tile ∧ failed.current.walkable world.cfg tile true

/-- `Spawn` comes to an end, and has placed the NPC on a walkable tile if there is one. -/
def FallsBack (world : SpawnWorld) (s : Spawning) (i : Nat) (parent : Option Nat) (npc : MapNpc)
    (failed : Spawning) : Prop :=
  ∃ turns after, settle world turns i parent s = some after ∧
    (RoomLeft world failed npc →
      ∃ tile, after.npcs[i]?.map (·.tile) = some tile ∧ failed.current.walkable world.cfg tile true ∧
        after.reports.getLast? = some (.placedAt tile))

/-- Where the scan serves its purpose: the coordinates of the spawn point are neither too small nor too
large. Elsewhere it must not be needed, or must happen to meet a place. -/
def Served (world : SpawnWorld) (i : Nat) (npc : MapNpc) (failed : Spawning) : Prop :=
  if npc.spawn.x.toNat < 2 then ¬RoomLeft world failed npc
  else if npc.spawn.y.toNat < 2 then npc.spawn.x.toNat < 253 ∧ ¬RoomLeft world failed npc
  else if 253 ≤ npc.spawn.y.toNat then ∃ y, failed.standable world.cfg i ⟨npc.spawn.x - 2, y⟩
  else if 253 ≤ npc.spawn.x.toNat then ∃ x y, Close npc.spawn.y y ∧ failed.standable world.cfg i ⟨x, y⟩
  else
    (∃ self, failed.npcs[i]? = some self ∧ self.alive) → RoomLeft world failed npc →
      ∃ tile, npc.spawn.Close tile ∧ failed.standable world.cfg i tile

theorem served_iff : Served world i npc failed ↔
    Finds (failed.standable world.cfg i) npc.spawn ∨
      GivesUp (failed.standable world.cfg i) npc.spawn ∧ ¬RoomLeft world failed npc := by
  unfold Served Finds GivesUp
  by_cases hX : npc.spawn.x.toNat < 2
  · simp [hX]
  by_cases hY : npc.spawn.y.toNat < 2
  · simp [hX, hY]
  have hX2 := Nat.not_lt.mp hX
  have hY2 := Nat.not_lt.mp hY
  by_cases hLargeY : 253 ≤ npc.spawn.y.toNat
  · simp [hX, hY, hX2, hY2, hLargeY, Nat.not_lt.mpr hLargeY]
  by_cases hLargeX : 253 ≤ npc.spawn.x.toNat
  · simp [hX, hY, hX2, hY2, hLargeY, hLargeX, Nat.not_lt.mpr hLargeX]
  rw [if_neg hX, if_neg hY, if_neg hLargeY, if_neg hLargeX]
  constructor
  · intro hServed
    by_cases hThere : ∃ tile, npc.spawn.Close tile ∧ failed.standable world.cfg i tile
    · exact .inl ⟨hX2, hY2, by rwa [if_neg hLargeY, if_neg hLargeX]⟩
    · refine .inr ⟨.inr ⟨Nat.not_le.mp hLargeX, .inr ⟨Nat.not_le.mp hLargeY, hThere⟩⟩, ?_⟩
      rintro ⟨tile, hClose, hWalkable⟩
      by_cases hAlive : ∃ self, failed.npcs[i]? = some self ∧ self.alive
      · exact hThere (hServed hAlive ⟨tile, hClose, hWalkable⟩)
      · refine hThere ⟨tile, hClose, standable_of_walkable (fun self hSelf => ?_) hWalkable⟩
        exact Bool.eq_false_iff.mpr fun hSelfAlive => hAlive ⟨self, hSelf, hSelfAlive⟩
  · rintro (⟨-, -, hThere⟩ | ⟨-, hNone⟩) - hRoom
    · rwa [if_neg hLargeY, if_neg hLargeX] at hThere
    · exact absurd hRoom hNone

theorem wake_reports (world : SpawnWorld) (i : Nat) (s : Spawning) : (wake world i s).reports = s.reports := by
  unfold wake
  dsimp only
  split <;> rfl

theorem tile_wake (world : SpawnWorld) (i : Nat) (s : Spawning) :
    (wake world i s).npcs[i]?.map (·.tile) = s.npcs[i]?.map (·.tile) := by
  have hModified : (wake world i s).npcs = (s.modifyNpc i fun npc =>
      { npc with
        alive := true
        hp := (world.enf npc.id).hp
        lastAct := world.now
        lastTalk := world.now
        actSpeed := world.speedTable npc.spawnType }).npcs := by
    unfold wake
    dsimp only
    split <;> rfl
  rw [hModified, Spawning.modifyNpc, List.getElem?_modify_eq, Option.map_eq_map, Option.map_map]
  rfl

theorem tile_moveTo {s : Spawning} (h : s.npcs[i]?.isSome) (tile : Tile) :
    (s.moveTo i tile).npcs[i]?.map (·.tile) = some tile := by
  obtain ⟨npc, hNpc⟩ := Option.isSome_iff_exists.mp h
  rw [getElem?_moveTo, if_pos rfl, hNpc]
  rfl

/-- The map when the scan has come to a tile, or past its bounds. -/
def scanned (i : Nat) (npc : MapNpc) (failed : Spawning) (result : Bool × Tile) : Spawning :=
  ((failed.report (.linearScan npc.spawn)).moveTo i result.2).report
    (if result.1 then .placedAt result.2 else .nowhereValid)

theorem Fallback.settle_eq (h : Fallback world s i parent npc failed) : ∃ y, ∀ turns,
    settle world turns i parent s = (linearScan (failed.standable world.cfg i) npc.spawn turns y).map
      fun result => wake world i (scanned i npc failed result) := by
  refine ⟨(failed.npcs[i]?.map (·.tile.y)).getD npc.spawn.y, fun turns => ?_⟩
  rw [settle, h.onMap]
  dsimp only
  rw [if_pos h.roams, place, h.failed]
  dsimp only
  rw [Option.map_map]
  refine congrArg (fun f => Option.map f _) (funext fun result => ?_)
  obtain ⟨found, tile⟩ := result
  cases found <;> rfl

theorem Fallback.placed_iff (h : Fallback world s i parent npc failed) :
    FallsBack world s i parent npc failed ↔
      Finds (failed.standable world.cfg i) npc.spawn ∨
        GivesUp (failed.standable world.cfg i) npc.spawn ∧ ¬RoomLeft world failed npc := by
  obtain ⟨y, hSettle⟩ := h.settle_eq
  have hOnMap : failed.npcs[i]?.isSome := by
    have hKept : (placeAtRandom world npc i 200 0 (adopt i s parent)).2.npcs[i]?.isSome =
        (adopt i s parent).npcs[i]?.isSome := isSome_placeAtRandom 200 0 i _
    rw [h.failed] at hKept
    rw [hKept]
    cases parent with
    | none => rw [adopt, h.onMap]; rfl
    | some p => rw [adopt, isSome_modifyNpc, h.onMap]; rfl
  constructor
  · rintro ⟨turns, after, hAfter, hPlaced⟩
    rw [hSettle] at hAfter
    obtain ⟨⟨found, tile⟩, hScan, rfl⟩ := Option.map_eq_some_iff.mp hAfter
    cases found with
    | true => exact .inl (linearScan_found hScan).1
    | false =>
        refine .inr ⟨linearScan_unfound hScan, fun hRoom => ?_⟩
        obtain ⟨tile', -, -, hReport⟩ := hPlaced hRoom
        rw [wake_reports] at hReport
        simp [scanned, Spawning.report] at hReport
  · rintro (hFinds | ⟨hGivesUp, hNone⟩)
    · obtain ⟨tile, hScan⟩ := linearScan_finds hFinds y
      refine ⟨256, _, by rw [hSettle, hScan]; rfl, fun _ => ⟨tile, ?_, ?_, ?_⟩⟩
      · rw [tile_wake]
        exact tile_moveTo hOnMap tile
      · exact walkable_of_standable (linearScan_found hScan).2
      · rw [wake_reports]
        simp [scanned, Spawning.report]
    · obtain ⟨tile, hScan⟩ := linearScan_givesUp hGivesUp y
      exact ⟨256, _, by rw [hSettle, hScan]; rfl, fun hRoom => absurd hRoom hNone⟩

/-- Every number that is drawn is the one in the middle. -/
def evenWorld : SpawnWorld where
  cfg := ⟨11, 0, false⟩
  enf _ := ⟨false, false, 10⟩
  speedTable _ := 1
  now := 0
  random _ := 2147483648

/-- An NPC at its spawn point, on a map with one tile that is no wall. -/
def walled (width : Nat) (free : Tile) (npc : MapNpc) : Spawning where
  map :=
    { width := width
      height := width
      tiles := fun tile => ⟨if tile = free then .none else .wall, ⟨0, 0, true, false⟩⟩
      characters := []
      npcs := []
      items := [] }
  npcs := [npc]
  drawn := 0
  sent := []
  reports := []

def npcAt (spawn : Tile) : MapNpc where
  index := 0
  tile := spawn
  alive := false
  aggressive := false
  hasParent := false
  id := 1
  temporary := false
  spawn := spawn
  spawnType := 0
  direction := .down
  parent := none
  hp := 0
  lastAct := 0
  lastTalk := 0
  actSpeed := 0

/-- What the draws leave of it. -/
def drawnAt (width : Nat) (free spawn : Tile) : Spawning :=
  (placeAtRandom evenWorld (npcAt spawn) 0 200 0 (walled width free (npcAt spawn))).2

theorem fallback_walled {width : Nat} {free spawn : Tile}
    (h : (placeAtRandom evenWorld (npcAt spawn) 0 200 0 (walled width free (npcAt spawn))).1 = false) :
    Fallback evenWorld (walled width free (npcAt spawn)) 0 none (npcAt spawn) (drawnAt width free spawn) where
  onMap := rfl
  roams := show (0 : Fin 8) < 7 by decide
  failed := Prod.ext h rfl

/-- In the corner the loops start behind their bounds. -/
theorem corner_counterexample :
    ¬∀ world s i parent npc failed, s.map.inBounds npc.spawn → Fallback world s i parent npc failed →
      FallsBack world s i parent npc failed := by
  intro h
  have hFallback : Fallback evenWorld (walled 2 ⟨1, 1⟩ (npcAt ⟨0, 0⟩)) 0 none (npcAt ⟨0, 0⟩) (drawnAt 2 ⟨1, 1⟩ ⟨0, 0⟩) :=
    fallback_walled (by decide +kernel)
  obtain ⟨hX, -⟩ | ⟨-, hNone⟩ := hFallback.placed_iff.mp (h _ _ _ _ _ _ (by decide) hFallback)
  · exact absurd hX (by decide)
  · exact hNone ⟨⟨1, 1⟩, by decide, by decide +kernel⟩

/-- The NPC is placed on a walkable tile wherever there is one exactly if the scan is served. -/
theorem fallback_places_iff (h : Fallback world s i parent npc failed) :
    FallsBack world s i parent npc failed ↔ Served world i npc failed :=
  h.placed_iff.trans served_iff.symm

theorem fallback_places_walled :
    FallsBack evenWorld (walled 6 ⟨4, 4⟩ (npcAt ⟨3, 3⟩)) 0 none (npcAt ⟨3, 3⟩) (drawnAt 6 ⟨4, 4⟩ ⟨3, 3⟩) := by
  refine (fallback_places_iff (fallback_walled (by decide +kernel))).mpr ?_
  rw [Served, if_neg (by decide), if_neg (by decide), if_neg (by decide), if_neg (by decide)]
  exact fun _ _ => ⟨⟨4, 4⟩, by decide, by decide +kernel⟩

end Places

end Etheos.Maps
