import Etheos.General.Tables
import Etheos.Guild.Guild

/-! A wedding on a map with a priest. What is said and sent is left out, but not who has to be
there for it. -/
namespace Etheos.Weddings

open General
open Guilds (Name)

/-- The empty string. -/
def Name.empty : Name := .of []

instance : EmptyCollection Name := ⟨Name.empty⟩

abbrev MapId := Nat

/-- The values of `npc_type` that matter. -/
inductive NpcType
  | npc
  | law
  | priest
  deriving Repr, DecidableEq

/-- What other parts of the program decide about a character. The gold is what
`HasItem(1, true)` gives. -/
structure Surroundings where
  gold : Int
  dressed : Bool
  level : Int
  deriving Repr, DecidableEq

/-- A character that is loaded. One that is `online` is in the world. -/
structure Character where
  online : Bool
  map : MapId
  npcType : NpcType
  fiance : Name
  partner : Name
  around : Surroundings
  deriving DecidableEq

/-- What has happened in the weddings of a map. -/
inductive Note
  | started (player1 player2 : Name)
  | entered (state : Nat)
  | accepted (player : Name) (state : Nat)
  deriving DecidableEq

/-- `priest` says whether the priest is on the map. The requests are a set. The program has neither
`asked`, with the one that was asked by each request, nor `notes`, of which the last one is first. -/
structure Wedding where
  priest : Bool
  state : Nat
  tick : Int
  tickTimer : Bool
  partner1 : Name
  partner2 : Name
  requests : List Name
  asked : List (Name × Name)
  notes : List Note
  deriving DecidableEq

namespace Wedding

variable (wedding : Wedding)

def note (note : Note) : Wedding := { wedding with notes := note :: wedding.notes }

def reset : Wedding :=
  { wedding with partner1 := ∅, partner2 := ∅, state := 0, tick := 0, tickTimer := false }

def requestWedding (requester asked : Name) : Wedding :=
  { wedding with
    requests := requester :: wedding.requests
    asked := (requester, asked) :: wedding.asked }

def cancelWeddingRequest (requester : Name) : Wedding :=
  { wedding with
    requests := wedding.requests.filter (· ≠ requester)
    asked := wedding.asked.filter (·.1 ≠ requester) }

/-- `LoadWedding`. -/
def load (priest : Bool) : Wedding := ⟨priest, 0, 0, false, ∅, ∅, [], [], []⟩

end Wedding

/-- What a wedding can see. The quests of a character that is given the ring may take it to
another map. -/
structure Scene where
  map : MapId
  wedding : Wedding
  characters : Table Name Character
  ring : Name → Option MapId

namespace Scene

section Stage

variable (s : Scene)

/-- `Map::GetCharacter`. -/
def getCharacter (name : Name) : Option Character :=
  (s.characters.lookup name).filter fun self => self.online && self.map == s.map

def getPartner1 : Option Character := s.getCharacter s.wedding.partner1

def getPartner2 : Option Character := s.getCharacter s.wedding.partner2

def stopTimer : Scene := { s with wedding := { s.wedding with tickTimer := false } }

def startTimer : Scene := { s with wedding := { s.wedding with tickTimer := true } }

def errorOut : Scene := { s with wedding := s.wedding.reset }

/-- The names are looked at, which are those of characters that have to be there. -/
def sayNames : Option Scene := do
  let _ ← s.getPartner1
  let _ ← s.getPartner2
  return s

def modifyCharacter (name : Name) (f : Character → Character) : Scene :=
  { s with characters := s.characters.modify name f }

def give (name : Name) : Scene :=
  match s.ring name with
  | none => s
  | some map =>
      let s := s.modifyCharacter name ({ · with map, npcType := .npc })
      { s with wedding := s.wedding.cancelWeddingRequest name }

/-- The couple is married, and given the rings. -/
def marry : Option Scene := do
  let _ ← s.getPartner1
  let _ ← s.getPartner2
  let p1 := s.wedding.partner1
  let p2 := s.wedding.partner2
  let s := s.modifyCharacter p1 ({ · with partner := p2 })
  let s := s.modifyCharacter p2 ({ · with partner := p1 })
  let s := s.modifyCharacter p1 ({ · with fiance := ∅ })
  let s := s.modifyCharacter p2 ({ · with fiance := ∅ })
  return (s.give p1).give p2

end Stage

section Ceremony

-- `tick` stands for `Tick`, which `ChangeState` calls.
variable (tick : Scene → Option Scene) (s : Scene)

def changeState (state : Nat) : Option Scene :=
  tick { s with wedding := { s.wedding with state, tick := -1, notes := .entered state :: s.wedding.notes } }

def check : Option (Bool × Scene) :=
  if s.getPartner1.isNone ∨ s.getPartner2.isNone ∨ s.wedding.priest = false then
    if s.wedding.state < 8 then some (false, s.errorOut)
    else do
      let s ← s.changeState tick 13
      return (false, s)
  else some (true, s)

def nextState : Option Scene := do
  let (fine, s) ← s.check tick
  if fine then s.changeState tick (s.wedding.state + 1) else return s

/-- What is done if the couple and the priest are there. -/
def checked (f : Scene → Option Scene) : Option Scene := do
  let (fine, s) ← s.check tick
  if fine then f s else return s

/-- The cases of `Tick`. -/
def tickState : Option Scene :=
  let t := s.wedding.tick
  match s.wedding.state with
  | 0 => some s.stopTimer
  | 1 => if t = 20 then s.nextState tick else some s
  | 2 => if t = 0 then s.sayNames else if t = 6 then s.nextState tick else some s
  | 3 => if t = 6 then s.nextState tick else some s
  | 4 =>
      if t = 0 then s.sayNames
      else if t = 3 then s.checked tick fun s => do
        let _ ← s.getPartner1
        return s
      else if t = 13 then some s.errorOut
      else some s
  | 5 => do
      let s ← if t = 1 then s.checked tick fun s => do
          let _ ← s.getPartner1
          return s
        else some s
      if s.wedding.tick = 7 then s.nextState tick else some s
  | 6 =>
      if t = 0 then s.sayNames
      else if t = 3 then s.checked tick fun s => do
        let _ ← s.getPartner2
        return s
      else if t = 13 then some s.errorOut
      else some s
  | 7 =>
      if t = 1 then s.checked tick fun s => do
        let _ ← s.getPartner2
        s.nextState tick
      else some s
  | 8 => do
      let s ← if t = 0 then s.marry else some s
      if s.wedding.tick = 6 then s.nextState tick else some s
  | 9 => if t = 6 then s.nextState tick else some s
  | 10 => if t = 5 then s.nextState tick else some s
  | 11 => if t = 0 then s.sayNames else if t = 1 then s.nextState tick else some s
  | 12 => if t = 0 then s.sayNames else if t = 5 then s.nextState tick else some s
  | 13 => if t = 0 then some s.errorOut else some s
  | _ => some s.errorOut

def tickOnce : Option Scene :=
  let count := if s.wedding.state ≠ 0 then s.wedding.tick + 1 else s.wedding.tick
  { s with wedding := { s.wedding with tick := count } }.tickState tick

end Ceremony

def tickWithin : Nat → Scene → Option Scene
  | 0, _ => none
  | depth + 1, s => s.tickOnce (tickWithin depth)

/-- `Tick`, which calls itself by `ChangeState` once, and not again from there. -/
def tick (s : Scene) : Option Scene := s.tickWithin 2

def startWedding (player1 player2 : Name) (s : Scene) : Option (Bool × Scene) :=
  if s.wedding.state > 0 then some (false, s)
  else do
    let named := { s.wedding with partner1 := player1, partner2 := player2 }
    let s ← { s with wedding := named.note (.started player1 player2) }.nextState tick
    let s ← s.tick
    return (true, s.startTimer)

def iDo (name : Name) (map : MapId) (s : Scene) : Option Scene :=
  let required := if name = s.wedding.partner1 then 4 else if name = s.wedding.partner2 then 6 else 0
  if required = 0 ∨ s.wedding.state ≠ required then some s
  else if map ≠ s.map then some s
  else { s with wedding := s.wedding.note (.accepted name required) }.nextState tick

end Scene

/-- The columns `fiance` and `partner` of the table `characters`. -/
structure Row where
  fiance : Name
  partner : Name
  deriving DecidableEq

structure World where
  characters : Table Name Character
  weddings : Table MapId Wedding
  rows : Table Name Row

namespace World

variable (w : World)

/-- The characters in the world. -/
def getCharacter (name : Name) : Option Character := (w.characters.lookup name).filter (·.online)

def modifyCharacter (name : Name) (f : Character → Character) : World :=
  { w with characters := w.characters.modify name f }

def modifyWedding (map : MapId) (f : Wedding → Wedding) : World :=
  { w with weddings := w.weddings.modify map f }

/-- A call of the wedding of a map, if it has one. -/
def onWedding (map : MapId) (ring : Name → Option MapId) (f : Scene → Option Scene) : Option World :=
  match w.weddings.lookup map with
  | none => some w
  | some wedding => do
      let s ← f ⟨map, wedding, w.characters, ring⟩
      return { w with weddings := w.weddings.insert map s.wedding, characters := s.characters }

/-- The timer of a wedding, which may have been stopped. -/
def tick (map : MapId) (ring : Name → Option MapId) : Option World :=
  if (w.weddings.lookup map).any (·.tickTimer) then w.onWedding map ring (·.tick) else some w

def iDo (map : MapId) (c : Name) (self : Character) : Option World :=
  w.onWedding map (fun _ => none) (·.iDo c self.map)

/-- `Map::Leave`. -/
def leaveMap (c : Name) (self : Character) : World :=
  w.modifyWedding self.map (·.cancelWeddingRequest c)

/-- `Character::Warp`. -/
def warp (c : Name) (self : Character) (map : MapId) : World :=
  (w.leaveMap c self).modifyCharacter c ({ · with map, npcType := .npc })

end World

end Etheos.Weddings
