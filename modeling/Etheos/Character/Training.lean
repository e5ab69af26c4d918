import Etheos.Character.Codecs
import Etheos.Character.Levels

/-! What characters make of the points of their levels: stats, and the levels of skills. -/
namespace Etheos.Trainings

open Characters (toInt toShort)
open Codecs (CharacterSpell spellSerialize spellUnserialize)
open Experience (PlayerId PartyId Party)

structure Config where
  experience : Experience.Config
  maxSkillLevel : Int
  /-- The size of the list of spells. -/
  esfSize : Int
  startSpells : List CharacterSpell

inductive Stat
  | str | intl | wis | agi | con | cha
  deriving DecidableEq

/-- `TrainType`. -/
inductive TrainType
  | stat | skill
  deriving DecidableEq

structure Skills where
  stats : Stat → Int
  spells : List CharacterSpell
  /-- `npc_type` is `ENF::Skills`. -/
  skillmaster : Bool

structure State where
  state : Experience.State
  skills : PlayerId → Skills

def statOf (statId : Int) : Option Stat :=
  match statId with
  | 1 => some .str
  | 2 => some .intl
  | 3 => some .wis
  | 4 => some .agi
  | 5 => some .con
  | 6 => some .cha
  | _ => none

namespace Skills

variable (cfg : Config) (skills : Skills)

def hasSpell (spell : Int) : Bool := (skills.spells.find? (·.id = spell)).isSome

def spellLevel (spell : Int) : Int :=
  match skills.spells.find? (·.id = spell) with
  | some cs => cs.level
  | none => 0

def addSpell (spell : Int) : Skills :=
  if spell ≤ 0 ∨ cfg.esfSize ≤ spell then skills
  else if skills.hasSpell spell then skills
  else { skills with spells := skills.spells ++ [⟨spell, 0⟩] }

def delSpell (spell : Int) : Skills :=
  { skills with spells := skills.spells.filter (·.id ≠ spell) }

end Skills

/-- The loop of `StatSkill_Add`. It goes on behind the spell that it was to find. -/
def trainSpells (statId : Int) : List CharacterSpell → Int → List CharacterSpell × Int
  | [], skillpoints => ([], skillpoints)
  | spell :: rest, skillpoints =>
      if spell.id = statId then
        let (rest, skillpoints) := trainSpells statId rest (toShort (skillpoints - 1))
        ({ spell with level := (spell.level + 1) % 256 } :: rest, skillpoints)
      else
        let (rest, skillpoints) := trainSpells statId rest skillpoints
        (spell :: rest, skillpoints)

namespace State

variable (cfg : Config) (s : State) (c : PlayerId)

def setCharacter (character : Experience.Character) : State :=
  { s with state := s.state.update c fun _ => character }

def setSkills (skills : Skills) : State := { s with skills := Function.update s.skills c skills }

/-- With the points paid, and one of the things that they buy. -/
def train (character : Experience.Character) (skills : Skills) : State :=
  (s.setCharacter c character).setSkills c skills

def character : Experience.Character := s.state.characters c

/-- `taught` tells that the skill master has the skill, that the character meets the requirements, and that it
pays. -/
def statSkillTake (spellId : Int) (taught : Bool) : State :=
  let skills := s.skills c
  let spellId := toShort spellId
  if skills.hasSpell spellId then s
  else if skills.skillmaster ∧ taught then s.setSkills c (skills.addSpell cfg spellId)
  else s

def statSkillRemove (spellId : Int) : State :=
  let skills := s.skills c
  if skills.skillmaster then s.setSkills c (skills.delSpell (toShort spellId)) else s

def statSkillAdd (action : TrainType) (statId : Int) : State :=
  let self := s.character c
  let skills := s.skills c
  match action with
  | .stat =>
      if self.statpoints ≤ 0 then s
      else
        match statOf statId with
        | none => s
        | some stat =>
            s.train c { self with statpoints := toShort (self.statpoints - 1) }
              { skills with stats := Function.update skills.stats stat (toShort (skills.stats stat + 1)) }
  | .skill =>
      if self.skillpoints ≤ 0 ∨ ¬skills.hasSpell (toShort statId) ∨
          cfg.maxSkillLevel ≤ skills.spellLevel (toShort statId) then s
      else
        let (spells, skillpoints) := trainSpells statId skills.spells self.skillpoints
        s.train c { self with skillpoints } { skills with spells }

/-- `Character::Reset`. -/
def reset : State :=
  let self := s.character c
  s.train c
    { self with
      statpoints := toShort (self.level * cfg.experience.statPerLevel)
      skillpoints := toShort (self.level * cfg.experience.skillPerLevel) }
    { s.skills c with stats := fun _ => 0, spells := [] }

def statSkillJunk : State := if (s.skills c).skillmaster then s.reset cfg c else s

/-- A new character is made of the defaults of its row and the `StartSpells`. -/
def create : State :=
  s.train c { s.character c with exp := 0, level := 0, statpoints := 0, skillpoints := 0 }
    ⟨fun _ => 0, cfg.startSpells, false⟩

/-- `Save`, and the constructor that reads the row again. A text that is not read leaves the row as it is. -/
def reload : State :=
  let self := s.character c
  let skills := s.skills c
  match spellUnserialize (spellSerialize skills.spells) with
  | none => s
  | some spells =>
      s.train c
        { self with
          exp := toInt self.exp
          level := self.level % 256
          statpoints := toShort self.statpoints
          skillpoints := toShort self.skillpoints }
        ⟨fun stat => toShort (skills.stats stat), spells, false⟩

/-- Characters walk, die, and join and leave parties. -/
def wander (places : PlayerId → Nat × Bool × Bool × Option PartyId) (parties : PartyId → Party) : State :=
  { s with
    state :=
      { characters := fun c =>
          let (map, nowhere, canInteractCombat, party) := places c
          { s.state.characters c with map, nowhere, canInteractCombat, party }
        parties } }

end State

inductive Event
  | create (c : PlayerId)
  | reload (c : PlayerId)
  | wander (places : PlayerId → Nat × Bool × Bool × Option PartyId) (parties : PartyId → Party)
  | experience (event : Experience.Event)
  /-- A handler or a warp sets `npc_type`. -/
  | talk (c : PlayerId) (skillmaster : Bool)
  | take (c : PlayerId) (spellId : Int) (taught : Bool)
  | remove (c : PlayerId) (spellId : Int)
  | add (c : PlayerId) (action : TrainType) (statId : Int)
  | junk (c : PlayerId)

def handle (cfg : Config) (s : State) : Event → State
  | .create c => s.create cfg c
  | .reload c => s.reload c
  | .wander places parties => s.wander places parties
  | .experience event => { s with state := Experience.step cfg.experience s.state event }
  | .talk c skillmaster => s.setSkills c { s.skills c with skillmaster }
  | .take c spellId taught => s.statSkillTake cfg c spellId taught
  | .remove c spellId => s.statSkillRemove c spellId
  | .add c action statId => s.statSkillAdd cfg c action statId
  | .junk c => s.statSkillJunk cfg c

def step (cfg : Config) (s : State) (event : Event) : Option State := some (handle cfg s event)

end Etheos.Trainings
