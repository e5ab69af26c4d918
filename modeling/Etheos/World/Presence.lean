import Etheos.General.Run
import Mathlib.Logic.Function.Basic

/-! Who is in the list of which map. A map keeps pointers to the characters on it, and a character that is taken off
the world is deleted: it must not be left in any list. -/
namespace Etheos.Presences

open General

abbrev CharId := Nat

/-- What a character knows of its map. `map` is the place of the map in the world's list, and `mapid` one more, unless
there is no such map. -/
structure Person where
  online : Bool
  map : Option Nat
  mapid : Int
  nowhere : Bool
  spawnMap : Int
  deriving DecidableEq

/-- The maps are numbered by their places. `loaded` stands for `exists`. -/
structure World where
  size : Nat
  loaded : Nat → Bool
  characters : Nat → List CharId
  person : CharId → Person

/-- A warp to a map, and the warps that quests do when the character enters it. -/
inductive Journey where
  | warp (map : Int) (entering : List Journey)

/-- The warps that quests do to both sides when a trade is closed. -/
structure Closing where
  partner : CharId
  own : List Journey
  others : List Journey

namespace World

/-- Nobody has been loaded. -/
def start (size : Nat) (loaded : Nat → Bool) : World :=
  ⟨size, loaded, fun _ => [], fun _ => ⟨false, none, 0, false, 0⟩⟩

variable (w : World)

/-- `GetMap` falls back on the first map. -/
def getMap (id : Int) : Nat := if 1 ≤ id ∧ id ≤ w.size then (id - 1).toNat else 0

/-- `id` of a map. -/
def idOf (m : Nat) : Int := m + 1

def modify (c : CharId) (f : Person → Person) : World :=
  { w with person := Function.update w.person c (f (w.person c)) }

/-- `Map::Enter`, up to the check of the quest rules. -/
def enter (m : Nat) (c : CharId) : World :=
  { w.modify c ({ · with map := some m }) with
    characters := Function.update w.characters m (w.characters m ++ [c]) }

/-- `Map::Leave`. -/
def leave (m : Nat) (c : CharId) : World :=
  { w.modify c ({ · with map := none }) with
    characters := Function.update w.characters m ((w.characters m).filter (· ≠ c)) }

/-- `Character::Warp` goes on for such a map only. -/
def admits (map : Int) : Bool := 0 < map && map ≤ w.size && w.loaded (w.getMap map)

/-- The first part of `Character::Warp`: the old map is left, and the new one is pointed at. -/
def depart (c : CharId) (map : Int) : World :=
  let m := w.getMap map
  let left :=
    match (w.person c).map with
    | some old => if w.loaded old then w.leave old c else w
    | none => w
  left.modify c ({ · with map := some m, mapid := idOf m })

/-- The last part of `Character::Warp`: the map that is pointed at is entered. -/
def arrive (c : CharId) : World :=
  match (w.person c).map with
  | some m => (w.modify c ({ · with nowhere := false })).enter m c
  | none => w

mutual

/-- `Character::Warp` of a character that does not trade. -/
def journey (w : World) (c : CharId) : Journey → World
  | .warp map entering => if w.admits map then journeys ((w.depart c map).arrive c) c entering else w

/-- `CheckQuestRules`, as far as it warps the character. -/
def journeys (w : World) (c : CharId) : List Journey → World
  | [] => w
  | j :: js => journeys (journey w c j) c js

end

/-- A trade is closed on both sides. -/
def close (c : CharId) : Option Closing → World
  | none => w
  | some closing => (w.journeys c closing.own).journeys closing.partner closing.others

/-- `Character::Warp`. -/
def warp (c : CharId) (map : Int) (closing : Option Closing) (entering : List Journey) : World :=
  if w.admits map then (((w.depart c map).close c closing).arrive c).journeys c entering else w

/-- `World::Login`. -/
def login (c : CharId) (entering : List Journey) : World :=
  ((w.enter (w.getMap (w.person c).mapid) c).journeys c entering).modify c ({ · with online := true })

/-- `World::Logout`. -/
def logoff (c : CharId) : World :=
  let m := w.getMap (w.person c).mapid
  if w.loaded m then w.leave m c else w

/-- `Character::Logout`. -/
def logout (c : CharId) (closing : Option Closing) : World :=
  if (w.person c).online then ((w.close c closing).modify c ({ · with online := false })).logoff c else w

/-- `Character::DeathRespawn`. The way back to the spawn point is a packet in the queue of the client. -/
def deathRespawn (m : Nat) (c : CharId) : World :=
  (w.leave m c).modify c fun p => { p with nowhere := true, map := some (w.getMap p.spawnMap), mapid := p.spawnMap }

/-- `Internal_Warp`. -/
def internalWarp (c : CharId) (entering : List Journey) : World :=
  (w.modify c ({ · with map := none })).warp c (w.person c).spawnMap none entering

/-- A character is read from the database. -/
def load (c : CharId) (mapid spawnMap : Int) : World :=
  let m := w.getMap mapid
  w.modify c fun _ => ⟨false, some m, idOf m, false, spawnMap⟩

/-- `Duty`, up to the login of the other character. -/
def swap (c d : CharId) (here : Bool) (closing : Option Closing) : World :=
  let w := w.logout c closing
  if here then w.modify d ({ · with mapid := (w.person c).mapid }) else w

/-- The other side of a trade is somebody else in the world. -/
def Closes (c : CharId) (closing : Option Closing) : Prop :=
  ∀ trade ∈ closing, trade.partner ≠ c ∧ (w.person trade.partner).online = true

instance (c : CharId) (closing : Option Closing) : Decidable (w.Closes c closing) :=
  inferInstanceAs (Decidable (∀ trade ∈ closing, _))

end World

inductive Event where
  | load (c : CharId) (mapid spawnMap : Int)
  | setHome (c : CharId) (spawnMap : Int)
  | welcome (c : CharId) (mapid spawnMap : Int) (reset entering : List Journey)
  | logout (c : CharId) (closing : Option Closing)
  /-- Any warp: of a tile, an inn, an administrator, a quest, a jail, an arena. -/
  | warp (c : CharId) (map : Int) (closing : Option Closing) (entering : List Journey)
  | die (c : CharId)
  | internalWarp (c : CharId) (entering : List Journey)
  | duty (c d : CharId) (here : Bool) (closing : Option Closing) (entering final : List Journey)
  /-- `Map::Reload` of a changed file, and what `Map::Load` returned. -/
  | reload (m : Nat) (loaded : Bool)

def step (w : World) : Event → Option World
  | .load c mapid spawnMap => if (w.person c).online then none else some (w.load c mapid spawnMap)
  | .setHome c spawnMap => some (w.modify c ({ · with spawnMap }))
  | .welcome c mapid spawnMap reset entering =>
      if (w.person c).online then none
      else
        let w := w.load c mapid spawnMap
        if w.loaded (w.getMap (w.person c).mapid) then some (w.login c entering)
        else if w.loaded (w.getMap spawnMap) then some ((w.warp c spawnMap none reset).login c entering)
        else some w
  | .logout c closing => if w.Closes c closing then some (w.logout c closing) else none
  | .warp c map closing entering =>
      if (w.person c).online ∧ w.Closes c closing then some (w.warp c map closing entering) else none
  | .die c =>
      match (w.person c).map with
      | some m => if (w.person c).online then some (w.deathRespawn m c) else none
      | none => none
  | .internalWarp c entering => if (w.person c).online then some (w.internalWarp c entering) else none
  | .duty c d here closing entering final =>
      if (w.person c).online ∧ (w.person d).online = false ∧ w.Closes c closing then
        let w := (w.swap c d here closing).login d entering
        some (w.warp d (w.person d).mapid none final)
      else none
  | .reload m loaded => some { w with loaded := Function.update w.loaded m loaded }

namespace World

variable (w : World)

/-- Some of the warps go on. -/
def moves (journeys : List Journey) : Bool :=
  journeys.any fun
    | .warp map _ => w.admits map

/-- The character stands on a map that could not be loaded again. -/
def stranded (c : CharId) : Bool :=
  (w.person c).online && !(w.person c).nowhere && (w.person c).map.any fun m => !w.loaded m

/-- The rules of a quest warp the other side of a trade off a map that is not loaded. -/
def strandsPartner : Option Closing → Bool
  | none => false
  | some closing => w.moves closing.others && w.stranded closing.partner

/-- The rules of a quest warp a character while a trade of it is closed. -/
def movesOwn : Option Closing → Bool
  | none => false
  | some closing => w.moves closing.own

end World

/-- The steps behind which a character may be in two lists: it is warped, or logs out, from a map that is not loaded, a
quest warps it while its warp closes a trade, it logs in on a map that is not loaded, and its way back to the spawn
point comes when another warp has already brought it back. -/
def Upsets (w : World) : Event → Prop
  | .warp c map closing _ =>
      w.admits map ∧ (w.stranded c ∨ w.movesOwn closing ∨ w.strandsPartner closing)
  | .logout c closing => w.stranded c ∨ w.strandsPartner closing
  | .welcome _ mapid _ _ _ => w.loaded (w.getMap mapid) = false
  | .internalWarp c _ => (w.person c).nowhere = false
  | .duty c d here closing _ _ =>
      w.stranded c ∨ w.strandsPartner closing ∨
        let w := w.swap c d here closing
        w.admits (w.person d).mapid = false
  | .load .. | .setHome .. | .die _ | .reload .. => False

instance : ∀ w event, Decidable (Upsets w event)
  | _, .warp .. => inferInstanceAs (Decidable (_ ∧ (_ ∨ _ ∨ _)))
  | _, .logout .. => inferInstanceAs (Decidable (_ ∨ _))
  | _, .welcome .. | _, .internalWarp .. => inferInstanceAs (Decidable (_ = false))
  | _, .duty .. => inferInstanceAs (Decidable (_ ∨ _ ∨ _ = false))
  | _, .load .. | _, .setHome .. | _, .die _ | _, .reload .. => isFalse id

end Etheos.Presences
