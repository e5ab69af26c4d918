import Etheos.General.Run
import Etheos.Map.Walk
import Mathlib.Logic.Function.Basic

/-! The arenas of the maps, and who is in them. A step that would use an arena or a map that is
not there any more is not defined. -/
namespace Etheos.Arenas

open Maps

structure ArenaSpawn where
  sx : Nat
  sy : Nat
  dx : Nat
  dy : Nat

structure Arena where
  map : Nat
  block : Int
  occupants : Int
  spawns : List ArenaSpawn

structure Character where
  map : Option Nat
  mapid : Nat
  x : Nat
  y : Nat
  arena : Option Nat
  nextArena : Option Nat

structure GameMap where
  isThere : Bool
  relogX : Nat
  relogY : Nat
  arena : Option Nat
  characters : List Nat

/-- The entries of a map in `arenas_config`. -/
structure ArenaConfig where
  enabled : Bool
  block : Int
  spawns : List Int

/-- Arenas are known by numbers that are not used twice. -/
structure State where
  online : List Nat
  chars : Nat → Character
  size : Nat
  maps : Nat → GameMap
  arenas : Nat → Option Arena
  fresh : Nat
  config : Nat → ArenaConfig

def noMap : GameMap := ⟨false, 0, 0, none, []⟩

/-- A server before its maps are loaded. -/
def State.empty (config : Nat → ArenaConfig) : State where
  online := []
  chars _ := ⟨none, 0, 0, 0, none, none⟩
  size := 0
  maps _ := noMap
  arenas _ := none
  fresh := 0
  config := config

/-- A call of `Character::Warp`. -/
structure Warp where
  character : Nat
  map : Nat
  x : Nat
  y : Nat

namespace State

variable (s : State)

def setChar (c : Nat) (char : Character) : State := { s with chars := Function.update s.chars c char }

def setMap (m : Nat) (map : GameMap) : State := { s with maps := Function.update s.maps m map }

def setArena (a : Nat) (arena : Option Arena) : State := { s with arenas := Function.update s.arenas a arena }

section Fields

variable (c m a : Nat) (char : Character) (map : GameMap) (arena : Option Arena)

@[simp] theorem setChar_online : (s.setChar c char).online = s.online := rfl
@[simp] theorem setChar_maps : (s.setChar c char).maps = s.maps := rfl
@[simp] theorem setChar_arenas : (s.setChar c char).arenas = s.arenas := rfl
@[simp] theorem setChar_size : (s.setChar c char).size = s.size := rfl
@[simp] theorem setChar_fresh : (s.setChar c char).fresh = s.fresh := rfl
@[simp] theorem setMap_online : (s.setMap m map).online = s.online := rfl
@[simp] theorem setMap_chars : (s.setMap m map).chars = s.chars := rfl
@[simp] theorem setMap_arenas : (s.setMap m map).arenas = s.arenas := rfl
@[simp] theorem setMap_size : (s.setMap m map).size = s.size := rfl
@[simp] theorem setMap_fresh : (s.setMap m map).fresh = s.fresh := rfl
@[simp] theorem setArena_online : (s.setArena a arena).online = s.online := rfl
@[simp] theorem setArena_chars : (s.setArena a arena).chars = s.chars := rfl
@[simp] theorem setArena_maps : (s.setArena a arena).maps = s.maps := rfl
@[simp] theorem setArena_size : (s.setArena a arena).size = s.size := rfl
@[simp] theorem setArena_fresh : (s.setArena a arena).fresh = s.fresh := rfl

theorem setChar_chars (d : Nat) : (s.setChar c char).chars d = if d = c then char else s.chars d :=
  Function.update_apply ..

theorem setMap_maps (n : Nat) : (s.setMap m map).maps n = if n = m then map else s.maps n :=
  Function.update_apply ..

theorem setArena_arenas (b : Nat) : (s.setArena a arena).arenas b = if b = a then arena else s.arenas b :=
  Function.update_apply ..

end Fields

/-- `Map::Leave`. -/
def leave (m c : Nat) : State :=
  s.setMap m { s.maps m with characters := (s.maps m).characters.filter (· ≠ c) }

/-- `Map::Enter`. -/
def enter (m c : Nat) : State :=
  s.setMap m { s.maps m with characters := (s.maps m).characters ++ [c] }

/-- The first part of `Warp`: the old map is left, and the new one is not entered yet. -/
def depart (w : Warp) : State :=
  let self := s.chars w.character
  let left :=
    match self.map with
    | none => s
    | some m => if (s.maps m).isThere then s.leave m w.character else s
  left.setChar w.character { self with map := some w.map, mapid := w.map, x := w.x, y := w.y }

def arrive (c : Nat) : Option State := (s.chars c).map.map fun m => s.enter m c

/-- The counter of an arena that must be there. -/
def count (a : Nat) (n : Int) : Option State :=
  (s.arenas a).map fun arena => s.setArena a (some { arena with occupants := arena.occupants + n })

/-- `--this->arena->occupants`. -/
def leaveArena (c : Nat) : Option State :=
  match (s.chars c).arena with
  | none => some s
  | some a => s.count a (-1)

/-- `this->arena = this->next_arena`. -/
def joinArena (c : Nat) : Option State :=
  match (s.chars c).nextArena with
  | none => some s
  | some a => (s.count a 1).map (·.setChar c { s.chars c with arena := some a, nextArena := none })

/-- The last part of `Warp`. -/
def settle (c : Nat) : Option State :=
  (s.leaveArena c).bind fun s => (s.setChar c { s.chars c with arena := none }).joinArena c

end State

/-- `Character::Warp`. What happens while the character is on no map is a parameter. -/
def warpWith (between : State → Option State) (s : State) (w : Warp) : Option State :=
  if w.character ∉ s.online then none
  else if ¬(s.maps w.map).isThere then some s
  else (between (s.depart w)).bind fun s => (s.arrive w.character).bind (·.settle w.character)

def warpEach (warp : State → Warp → Option State) (s : State) : List Warp → Option State
  | [] => some s
  | w :: rest => (warp s w).bind (warpEach warp · rest)

/-- The warps that the rules of the quests make when a trade is closed. No trade is open then. -/
abbrev Rules := Nat → List Warp

def warp (rules : Rules) (s : State) (w : Warp) : Option State :=
  warpWith (warpEach (warpWith some) · (rules w.character)) s w

/-- Four numbers of the text are one spawn. -/
def readSpawns : List Int → List ArenaSpawn
  | sx :: sy :: dx :: dy :: rest =>
      ⟨(sx % 256).toNat, (sy % 256).toNat, (dx % 256).toNat, (dy % 256).toNat⟩ :: readSpawns rest
  | _ => []

/-- The arena that the configuration asks for. -/
def ArenaConfig.arena (cfg : ArenaConfig) (m : Nat) (occupants : Nat) : Option Arena :=
  if cfg.enabled ∧ cfg.spawns.length % 4 = 0 then
    some { map := m, block := cfg.block, occupants := occupants, spawns := readSpawns cfg.spawns }
  else none

namespace State

variable (s : State)

/-- The characters that `LoadArena` has to take care of. -/
def updateCharacters (m : Nat) : Option (List Nat) :=
  match (s.maps m).arena with
  | none => some []
  | some a => (s.arenas a).map fun arena =>
      (s.maps arena.map).characters.filter fun c => (s.chars c).arena = some a

/-- `delete this->arena`. -/
def deleteArena (m : Nat) : State :=
  match (s.maps m).arena with
  | none => s
  | some a => (s.setArena a none).setMap m { s.maps m with arena := none }

def newArena (m : Nat) (arena : Arena) : State :=
  { (s.setArena s.fresh (some arena)).setMap m { s.maps m with arena := some s.fresh } with
    fresh := s.fresh + 1 }

def carry (a : Nat) (carried : List Nat) : State :=
  { s with chars := fun c => if c ∈ carried then { s.chars c with arena := some a } else s.chars c }

end State

/-- Those who were in an arena that is gone are sent away one after the other. -/
def evict (rules : Rules) (s : State) : List Nat → Option State
  | [] => some s
  | c :: rest =>
      let s := s.setChar c { s.chars c with arena := none }
      match (s.chars c).map with
      | none => none
      | some m => (warp rules s ⟨c, m, (s.maps m).relogX, (s.maps m).relogY⟩).bind (evict rules · rest)

/-- `Map::LoadArena`. -/
def loadArena (rules : Rules) (s : State) (m : Nat) : Option State :=
  (s.updateCharacters m).bind fun update =>
    let cleared := s.deleteArena m
    match (s.config m).arena m update.length with
    | some arena => some ((cleared.newArena m arena).carry s.fresh update)
    | none => evict rules cleared update

def loadArenas (rules : Rules) (s : State) : List Nat → Option State
  | [] => some s
  | m :: rest => (loadArena rules s m).bind (loadArenas rules · rest)

/-- `World::Rehash`, as far as the arenas go. -/
def rehash (config : Nat → ArenaConfig) (rules : Rules) (s : State) : Option State :=
  loadArenas rules { s with config := config } ((List.range s.size).map (· + 1))

/-- What is read from the file of a map: where one logs in. -/
abbrev MapFile := Option (Nat × Nat)

def GameMap.load (map : GameMap) : MapFile → GameMap
  | none => { map with isThere := false }
  | some (relogX, relogY) => { map with isThere := true, relogX := relogX, relogY := relogY }

/-- `Map::Reload` of a map whose file is there and has changed. The arena is deleted by `Unload`, and
nobody is asked to leave it. -/
def reload (s : State) (m : Nat) (file : MapFile) : Option State :=
  let unloaded := s.deleteArena m
  let loaded := unloaded.setMap m ((unloaded.maps m).load file)
  match file with
  | none => some loaded
  | some _ => loadArena (fun _ => []) loaded m

/-- The constructor of a map behind the last one. -/
def addMap (s : State) (file : MapFile) : Option State :=
  let m := s.size + 1
  loadArena (fun _ => []) { s.setMap m (noMap.load file) with size := m } m

namespace State

variable (s : State)

def isAt (c x y : Nat) : Bool := (s.chars c).x = x ∧ (s.chars c).y = y

/-- How many stand on the spawns. -/
def newplayers (arena : Arena) : Nat :=
  (arena.spawns.map fun spawn =>
    ((s.maps arena.map).characters.filter fun c => s.isAt c spawn.sx spawn.sy).length).sum

/-- The first one on each of the spawns. -/
def picked (arena : Arena) : List (Nat × ArenaSpawn) :=
  arena.spawns.filterMap fun spawn =>
    ((s.maps arena.map).characters.find? fun c => s.isAt c spawn.sx spawn.sy).map (·, spawn)

def await (a : Nat) (waiting : List Nat) : State :=
  { s with chars := fun c => if c ∈ waiting then { s.chars c with nextArena := some a } else s.chars c }

end State

/-- `Arena::Spawn`. -/
def spawn (rules : Rules) (s : State) (a : Nat) (force : Bool) : Option State :=
  (s.arenas a).bind fun arena =>
    if s.newplayers arena = 0 then some s
    else if arena.block ≤ arena.occupants ∧ ¬force then some s
    else
      let picked := s.picked arena
      warpEach (warp rules) (s.await a (picked.map Prod.fst))
        (picked.map fun p => ⟨p.1, arena.map, p.2.dx, p.2.dy⟩)

/-- The tile in front. It need not be on the map. -/
def inFront (direction : Direction) (x y : Int) : Int × Int :=
  match direction with
  | .up => (x, y - 1)
  | .right => (x + 1, y)
  | .down => (x, y + 1)
  | .left => (x - 1, y)

/-- `Arena::Attack`, where the attacker is in an arena. -/
def attack (rules : Rules) (s : State) (attacker : Nat) (direction : Direction) : Option State :=
  let self := s.chars attacker
  match self.arena with
  | none => some s
  | some a => (s.arenas a).bind fun arena =>
      let map := s.maps arena.map
      let target := inFront direction self.x self.y
      match map.characters.find? fun c =>
          (s.chars c).arena = some a ∧ ((s.chars c).x : Int) = target.1 ∧ ((s.chars c).y : Int) = target.2 with
      | none => some s
      | some c =>
          let beaten := if arena.occupants = 2 then [c, attacker] else [c]
          warpEach (warp rules) s (beaten.map fun c => ⟨c, arena.map, map.relogX, map.relogY⟩)

/-- `Character::Logout`. The warps are those of the rules when a trade is closed by it. -/
def logout (rules : Rules) (s : State) (c : Nat) : Option State :=
  if c ∉ s.online then some s
  else
    (warpEach (warpWith some) s (rules c)).bind fun s => (s.leaveArena c).map fun s =>
      let m := (s.chars c).mapid
      let left := if (s.maps m).isThere then s.leave m c else s
      { left with online := left.online.filter (· ≠ c) }

/-- `World::Login` of a character that was read from the database. -/
def login (s : State) (c m x y : Nat) : Option State :=
  if c ∈ s.online then none
  else
    let entered := (s.setChar c ⟨some m, m, x, y, none, none⟩).enter m c
    some { entered with online := entered.online ++ [c] }

inductive Event where
  | spawn (arena : Nat) (force : Bool) (rules : Rules)
  | attack (attacker : Nat) (direction : Direction) (rules : Rules)
  | warp (w : Warp) (rules : Rules)
  | logout (character : Nat) (rules : Rules)
  | rehash (config : Nat → ArenaConfig) (rules : Rules)
  /-- The file may be the one that is loaded. -/
  | reload (map : Nat) (changed : Bool) (file : MapFile)
  | addMap (file : MapFile)
  | login (character map x y : Nat)
  | walk (character x y : Nat)

def step (s : State) : Event → Option State
  | .spawn a force rules => Arenas.spawn rules s a force
  | .attack attacker direction rules =>
      if attacker ∈ s.online then Arenas.attack rules s attacker direction else none
  | .warp w rules => Arenas.warp rules s w
  | .logout c rules => Arenas.logout rules s c
  | .rehash config rules => Arenas.rehash config rules s
  | .reload m changed file =>
      if m = 0 ∨ s.size < m then none else if changed then Arenas.reload s m file else some s
  | .addMap file => Arenas.addMap s file
  | .login c m x y => Arenas.login s c m x y
  | .walk c x y => if c ∈ s.online then some (s.setChar c { s.chars c with x := x, y := y }) else none

/-- How many are in an arena. -/
def State.occupying (s : State) (a : Nat) : Nat := s.online.countP fun c => (s.chars c).arena = some a

/-- The counters are right, and nobody is in an arena that is not there. -/
structure Occupancy (s : State) : Prop where
  counted : ∀ a arena, s.arenas a = some arena → arena.occupants = s.occupying a
  living : ∀ c ∈ s.online, ∀ a, (s.chars c).arena = some a ∨ (s.chars c).nextArena = some a →
    (s.arenas a).isSome

end Etheos.Arenas
