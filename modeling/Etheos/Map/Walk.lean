import Etheos.General.Diamond
import Etheos.Stores.Ground

/-! A step of a character or of an NPC on a map, and what is sent then. -/
namespace Etheos.Maps

open General Stores

inductive Direction where
  | down
  | left
  | up
  | right
  deriving DecidableEq

structure Tile where
  x : UInt8
  y : UInt8
  deriving DecidableEq

/-- A place in the numbers that the range is reckoned in. -/
abbrev Coords := Int × Int

def Tile.coords (tile : Tile) : Coords := (tile.x.toNat, tile.y.toNat)

inductive TileSpec where
  | none
  | wall
  | chairDown
  | chairLeft
  | chairRight
  | chairUp
  | chairDownRight
  | chairUpLeft
  | chairAll
  | door
  | chest
  | bankVault
  | npcBoundary
  | mapEdge
  | fakeWall
  | board (number : Fin 8)
  | jukebox
  | jump
  | water
  | arena
  | ambientSource
  | spikes (number : Fin 3)
  | unknown (number : Fin 7)
  deriving DecidableEq

structure MapWarp where
  map : Int
  levelreq : Nat
  noDoor : Bool
  isOpen : Bool

/-- A warp that leads nowhere is none. -/
def MapWarp.isSet (warp : MapWarp) : Bool := warp.map ≠ 0

structure MapTile where
  tilespec : TileSpec
  warp : MapWarp

def MapTile.walkable (tile : MapTile) (npc : Bool) : Bool :=
  if tile.warp.isSet ∧ npc then false
  else
    match tile.tilespec with
    | .wall | .chairDown | .chairLeft | .chairRight | .chairUp | .chairDownRight | .chairUpLeft | .chairAll
    | .chest | .bankVault | .mapEdge | .board _ | .jukebox => false
    | .npcBoundary => !npc
    | _ => true

structure Character where
  playerId : Nat
  tile : Tile
  nowhere : Bool
  level : Nat
  lastWalk : Int
  interactsCombat : Bool
  hidesFromNpc : Bool
  deriving DecidableEq

structure NPC where
  index : Nat
  tile : Tile
  alive : Bool
  aggressive : Bool
  hasParent : Bool
  deriving DecidableEq

structure GameMap where
  width : Nat
  height : Nat
  tiles : Tile → MapTile
  characters : List Character
  npcs : List NPC
  items : List MapItem

structure MapConfig where
  seeDistance : Int
  ghostTimer : Int
  ghostArena : Bool

/-- What a client is told about a step. -/
inductive Message where
  /-- A character is out of sight. -/
  | avatarRemove (playerId : Nat)
  /-- A character comes into sight. -/
  | playersAgree (playerId : Nat) (tile : Tile)
  | walkPlayer (playerId : Nat) (direction : Direction) (tile : Tile)
  /-- The own step, with the items that come into sight. -/
  | walkReply (items : List MapItem)
  | rangeReply (index : Nat) (tile : Tile)
  | npcPlayer (index : Nat) (tile : Tile) (direction : Direction)
  | npcRemove (index : Nat)
  deriving DecidableEq

/-- A message to the character with the player id. -/
abbrev Sent := Nat × Message

namespace GameMap

variable (map : GameMap)

def inBounds (tile : Tile) : Bool := ¬(map.width ≤ tile.x.toNat ∨ map.height ≤ tile.y.toNat)

def occupiedByPlayer (tile : Tile) (adminghost : Bool) : Bool :=
  map.inBounds tile && map.characters.any fun c =>
    c.tile = tile && !(adminghost && (!c.interactsCombat || c.hidesFromNpc))

def occupiedByNPC (tile : Tile) : Bool :=
  map.inBounds tile && map.npcs.any fun npc => npc.alive && npc.tile = tile

def walkable (cfg : MapConfig) (tile : Tile) (npc : Bool) : Bool :=
  map.inBounds tile && (map.tiles tile).walkable npc &&
    !(cfg.ghostArena && (map.tiles tile).tilespec = .arena &&
      (map.occupiedByPlayer tile false || map.occupiedByNPC tile))

end GameMap

/-- The tile next to this one. A coordinate that runs over is noticed, but downwards it is the
other one that is looked at. -/
def Tile.next (tile : Tile) : Direction → Option Tile
  | .up => if tile.y < tile.y - 1 then none else some { tile with y := tile.y - 1 }
  | .right => if tile.x + 1 < tile.x then none else some { tile with x := tile.x + 1 }
  | .down => if tile.x < tile.x then none else some { tile with y := tile.y + 1 }
  | .left => if tile.x < tile.x - 1 then none else some { tile with x := tile.x - 1 }

/-- The `i`-th of `newcoords` and of `oldcoords`, around the tile that was entered. -/
def edge (seedistance : Int) (tile : Tile) (direction : Direction) (i : Int) : Coords × Coords :=
  let (x, y) := tile.coords
  match direction with
  | .up => ((x + i, y - seedistance + i.natAbs), (x + i, y + seedistance + 1 - i.natAbs))
  | .right => ((x + seedistance - i.natAbs, y + i), (x - seedistance - 1 + i.natAbs, y + i))
  | .down => ((x + i, y + seedistance - i.natAbs), (x + i, y - seedistance - 1 + i.natAbs))
  | .left => ((x - seedistance + i.natAbs, y + i), (x + seedistance + 1 - i.natAbs, y + i))

def edges (seedistance : Int) (tile : Tile) (direction : Direction) : List (Coords × Coords) :=
  (offsets seedistance).map (edge seedistance tile direction)

section Loops

variable {α : Type} (coords : List (Coords × Coords)) (place : α → Coords)

/-- What the loops put into `oldchars` and `oldnpcs`: once for every time that the place is found. -/
def oldOnes (all : List α) : List α :=
  all.flatMap fun a => (coords.filter fun c => place a = c.2).map fun _ => a

/-- What they put into `newchars` and `newnpcs`. -/
def newOnes (all : List α) : List α :=
  all.flatMap fun a => (coords.filter fun c => ¬place a = c.2 ∧ place a = c.1).map fun _ => a

/-- The loop for the items looks at `newcoords` only. -/
def newItems (all : List α) : List α :=
  all.flatMap fun a => (coords.filter fun c => place a = c.1).map fun _ => a

end Loops

def itemCoords (item : MapItem) : Coords := (item.x, item.y)

def distance (a b : Coords) : Int := pathLength a.1 a.2 b.1 b.2

/-- `from->InRange(character)`. -/
def inRange (cfg : MapConfig) (self other : Character) : Bool :=
  !(self.nowhere || other.nowhere) && distance self.tile.coords other.tile.coords ≤ cfg.seeDistance

inductive WalkResult where
  | fail
  | warped
  | ok (tile : Tile) (sent : List Sent)

/-- What is sent when a character has stepped onto its tile. -/
def walkSent (cfg : MapConfig) (map : GameMap) (self : Character) (direction : Direction) : List Sent :=
  let coords := edges cfg.seeDistance self.tile direction
  let others := map.characters.filter fun c => c.playerId ≠ self.playerId
  let living := map.npcs.filter (·.alive)
  let oldchars := oldOnes coords (·.tile.coords) others
  let newchars := newOnes coords (·.tile.coords) others
  let newnpcs := newOnes coords (·.tile.coords) living
  let oldnpcs := oldOnes coords (·.tile.coords) living
  let newitems := newItems coords itemCoords map.items
  (oldchars.flatMap fun c =>
    [(c.playerId, .avatarRemove self.playerId), (self.playerId, .avatarRemove c.playerId)]) ++
  (newchars.flatMap fun c =>
    [(c.playerId, .playersAgree self.playerId self.tile), (self.playerId, .playersAgree c.playerId c.tile)]) ++
  ((others.filter (inRange cfg self)).map fun c =>
    (c.playerId, .walkPlayer self.playerId direction self.tile)) ++
  (self.playerId, .walkReply newitems) ::
  ((newnpcs.map fun npc => (self.playerId, .rangeReply npc.index npc.tile)) ++
  oldnpcs.map fun npc => (self.playerId, .npcRemove npc.index))

/-- `Map::Walk` for a character at the time `now`, up to the rules of the quests and the spikes. -/
def walk (cfg : MapConfig) (map : GameMap) (self : Character) (direction : Direction) (admin : Bool) (now : Int) :
    WalkResult :=
  match self.tile.next direction with
  | none => .fail
  | some target =>
      if ¬map.inBounds target then .fail
      else if ¬admin ∧ (¬map.walkable cfg target false ∨
          map.occupiedByPlayer target false ∧ now < self.lastWalk + cfg.ghostTimer) then .fail
      else
        let warp := (map.tiles target).warp
        if warp.isSet ∧ warp.levelreq ≤ self.level ∧ (warp.noDoor ∨ warp.isOpen) then .warped
        else if warp.isSet ∧ ¬admin then .fail
        else .ok target (walkSent cfg map { self with tile := target } direction)

/-- What is sent when an NPC has stepped onto its tile. -/
def npcWalkSent (cfg : MapConfig) (map : GameMap) (self : NPC) (direction : Direction) : List Sent :=
  let coords := edges cfg.seeDistance self.tile direction
  let oldchars := oldOnes coords (·.tile.coords) map.characters
  let newchars := newOnes coords (·.tile.coords) map.characters
  (newchars.map fun c => (c.playerId, .rangeReply self.index self.tile)) ++
  ((map.characters.filter fun c => !c.nowhere && distance c.tile.coords self.tile.coords ≤ cfg.seeDistance).map
    fun c => (c.playerId, .npcPlayer self.index self.tile direction)) ++
  oldchars.map fun c => (c.playerId, .npcRemove self.index)

/-- `Map::Walk` for an NPC. -/
def npcWalk (cfg : MapConfig) (map : GameMap) (self : NPC) (direction : Direction) : WalkResult :=
  match self.tile.next direction with
  | none => .fail
  | some target =>
      let adminghost := self.aggressive || self.hasParent
      if ¬map.walkable cfg target true ∨ map.occupiedByPlayer target adminghost ∨ map.occupiedByNPC target then .fail
      else .ok target (npcWalkSent cfg map { self with tile := target } direction)

end Etheos.Maps
