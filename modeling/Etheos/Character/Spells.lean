import Etheos.General.Run
import Etheos.General.Tables
import Mathlib.Order.Lattice

/-! The chants of spells. Time is any type that is compared, added and subtracted as the program
does, and not always exactly. -/
namespace Etheos.Spells

open General

abbrev SpellId := Nat

/-- An address. -/
abbrev EventId := Nat

abbrev PlayerId := Nat

namespace ESF

inductive Kind
  | heal
  | damage
  | bard
  deriving DecidableEq

inductive TargetRestrict
  | npcOnly
  | friendly
  | opponent
  deriving DecidableEq

inductive Target
  | normal
  | caster
  | unknown1
  | group
  deriving DecidableEq

structure Data where
  id : SpellId := 0
  castTime : Nat := 0
  kind : Kind := .damage
  targetRestrict : TargetRestrict := .npcOnly
  target : Target := .normal

/-- `Get`. The first entry is the one of no spell. -/
def get (data : List Data) (id : SpellId) : Data :=
  if id < data.length then data.getD id {} else data.getD 0 {}

end ESF

/-- A time of day in hundredths of a second. The time -1 is not known. -/
structure Timestamp where
  ts : Int
  deriving DecidableEq

namespace Timestamp

def maxTs : Int := 8640000

def unknown : Timestamp := ⟨-1⟩

def ofInt (ts : Int) : Timestamp := ⟨ts.tmod maxTs⟩

/-- `operator-`. -/
def since (a b : Timestamp) : Int :=
  if a.ts = -1 then b.ts
  else if b.ts = -1 then a.ts
  else if b.ts > a.ts then a.ts - b.ts + maxTs
  else a.ts - b.ts

end Timestamp

inductive SpellTarget
  | invalid
  | caster
  | npc
  | player
  | group
  deriving DecidableEq

section Model

variable {T : Type*}

structure Character (T : Type*) where
  map : Nat
  spells : List SpellId
  timestamp : Timestamp
  spellReady : Bool
  spellId : SpellId
  spellEvent : Option EventId
  spellTarget : SpellTarget
  spellTargetId : Nat
  spellFiredTime : T

/-- The character as `CancelSpell` leaves it. -/
def Character.quiet (character : Character T) : Character T :=
  { character with spellTarget := .invalid, spellEvent := none, spellReady := false }

/-- An event of the timer whose callback is `character_cast_spell`. It is called once. -/
structure TimeEvent (T : Type*) where
  param : PlayerId
  lasttime : T
  speed : T

/-- What the map is asked to do. -/
inductive Cast
  | spellSelf
  | spellAttack (npc : Nat)
  | spellAttackPK (victim : PlayerId)
  | spellGroup
  deriving DecidableEq

/-- What has happened. The program does not write it down. -/
inductive Note (T : Type*)
  | requested (c : PlayerId) (spell : SpellId) (now castTime cooldown : T)
  | cancelled (c : PlayerId)
  | acted (c : PlayerId) (spell : SpellId) (cast : Cast) (now : T)

def Note.caster : Note T → PlayerId
  | .requested c .. => c
  | .cancelled c => c
  | .acted c .. => c

/-- The configuration and the files of the spells can be loaded again while the server runs. -/
structure Settings (T : Type*) where
  spellCastCooldown : T
  enforceTimestamps : Bool
  esf : List ESF.Data

/-- The last note is the first one of `log`. -/
structure State (T : Type*) where
  now : T
  settings : Settings T
  npcs : Nat → List Nat
  characters : Table PlayerId (Character T)
  events : Table EventId (TimeEvent T)
  log : List (Note T)

namespace State

def start (now : T) (settings : Settings T) : State T := ⟨now, settings, fun _ => [], ∅, ∅, []⟩

variable (s : State T)

def put (c : PlayerId) (character : Character T) : State T :=
  { s with characters := s.characters.insert c character }

def note (note : Note T) : State T := { s with log := note :: s.log }

/-- `delete` of an event, which takes it from the timer. -/
def delete : Option EventId → State T
  | some e => { s with events := s.events.erase e }
  | none => s

/-- `CancelSpell`. -/
def cancelSpell (c : PlayerId) (character : Character T) : State T :=
  (s.delete character.spellEvent).put c character.quiet

/-- `CancelSpell`, where it is not `SpellAct` that calls it. -/
def cancel (c : PlayerId) (character : Character T) : State T :=
  (s.cancelSpell c character).note (.cancelled c)

/-- The `switch` of `SpellAct`. The index of an NPC is a byte. -/
def target (c : PlayerId) (character : Character T) (spell : ESF.Data) : Option Cast :=
  match character.spellTarget with
  | .caster =>
      if spell.targetRestrict ≠ .friendly ∨ spell.target ≠ .caster then none
      else some .spellSelf
  | .npc =>
      let index := character.spellTargetId % 256
      if spell.targetRestrict = .friendly ∨ spell.target ≠ .normal then none
      else if index ∈ s.npcs character.map then some (.spellAttack index)
      else none
  | .player =>
      let victim := character.spellTargetId
      if spell.targetRestrict = .npcOnly ∨ spell.target ≠ .normal then none
      else if spell.targetRestrict ≠ .friendly ∧ victim = c then none
      else if (s.characters.lookup victim).any (·.map = character.map) then some (.spellAttackPK victim)
      else none
  | .group =>
      if spell.targetRestrict ≠ .friendly ∨ spell.target ≠ .group then none
      else some .spellGroup
  | .invalid => none

/-- `SpellAct`. -/
def spellAct (c : PlayerId) (character : Character T) : State T :=
  let spell := ESF.get s.settings.esf character.spellId
  if spell.id = 0 ∨ spell.kind = .bard then s.cancelSpell c character
  else
    let quiet := s.cancelSpell c { character with spellFiredTime := s.now }
    match s.target c character spell with
    | some cast => quiet.note (.acted c character.spellId cast s.now)
    | none => quiet

/-- What the handlers of `Spell_Target_Self`, `Spell_Target_Other` and `Spell_Target_Group` have in common. -/
def castAt (c : PlayerId) (character : Character T) (target : SpellTarget) (targetId : Nat)
    (timestamp : Timestamp) : State T :=
  let character := { character with spellTarget := target, spellTargetId := targetId }
  let castTime : Int := (ESF.get s.settings.esf character.spellId).castTime
  let elapsed := timestamp.since character.timestamp
  if s.settings.enforceTimestamps ∧ (elapsed < (castTime - 1) * 47 + 35 ∨ elapsed > max castTime 1 * 50) then
    s.cancel c character
  else
    let character := { character with timestamp := timestamp }
    if character.spellReady then s.spellAct c character else s.put c character

def targetSelf (c : PlayerId) (character : Character T) (timestamp : Timestamp) : State T :=
  if character.spellEvent.isNone ∧ ¬character.spellReady then s
  else s.castAt c character .caster 0 timestamp

def targetOther (c : PlayerId) (character : Character T) (targetType victimId : Nat) (timestamp : Timestamp) :
    State T :=
  if character.spellEvent.isNone ∧ ¬character.spellReady then s
  else match targetType with
    | 1 => s.castAt c character .player victimId timestamp
    | 2 => s.castAt c character .npc victimId timestamp
    | _ => s.cancel c character

def targetGroup (c : PlayerId) (character : Character T) (timestamp : Timestamp) : State T :=
  if character.spellEvent.isNone ∧ ¬character.spellReady then s
  else s.castAt c character .group 0 timestamp

/-- What `character_cast_spell` does to the one whose event it is. -/
def castSpell (c : PlayerId) (character : Character T) : State T :=
  match character.spellEvent with
  | none => s
  | some _ =>
      let character := { character with spellEvent := none }
      if (ESF.get s.settings.esf character.spellId).id = 0 then s.put c character
      else if character.spellTarget ≠ .invalid then s.spellAct c character
      else s.put c { character with spellReady := true }

variable [LinearOrder T] [Add T]

/-- What `Tick` does when it comes to the event. The event is not registered any more when its
callback is called. -/
def fire (e : EventId) : Option (State T) := do
  let event ← s.events.lookup e
  if event.lasttime + event.speed < s.now then
    let character ← s.characters.lookup event.param
    return (s.delete (some e)).castSpell event.param character
  else none

variable [Sub T] [Zero T] (chant : Nat → T)

def spellCooldownTime (character : Character T) : T :=
  let cooldown := (character.spellFiredTime + s.settings.spellCastCooldown) - s.now
  if cooldown < 0 then 0 else cooldown

/-- `Spell_Request`. The new event can have any address that is free. `chant` is the multiplication
by 0.47. -/
def request (c : PlayerId) (character : Character T) (spellId : SpellId) (timestamp : Timestamp) (e : EventId) :
    Option (State T) :=
  let s := s.cancel c { character with timestamp := timestamp }
  let spell := ESF.get s.settings.esf spellId
  if spellId ∉ character.spells ∨ spell.id = 0 then some s
  else if (s.events.lookup e).isSome then none
  else
    let cooldown := s.spellCooldownTime character
    let s := s.put c { character.quiet with timestamp := timestamp, spellId := spellId, spellEvent := some e }
    let event := ⟨c, s.now, chant spell.castTime + cooldown⟩
    some ({ s with events := s.events.insert e event }.note
      (.requested c spellId s.now (chant spell.castTime) cooldown))

end State

/-- What else a character does, and whether `Walk` is successful and `Attack` finds the arrows that
the weapon needs. A warp ends with `enter`. -/
inductive Action
  | walk (successful : Bool)
  | attack (loaded : Bool)
  | face
  | sit
  | stand
  | enter (map : Nat)
  | reset
  | addSpell (spell : SpellId)
  | delSpell (spell : SpellId)

def State.perform (s : State T) (c : PlayerId) (character : Character T) : Action → State T
  | .walk successful => if successful then s.cancel c character else s
  | .attack loaded => if loaded then s.cancel c character else s
  | .face | .sit | .stand => s.cancel c character
  | .enter map => s.cancel c { character with map := map }
  | .reset => s.cancel c { character with spells := [] }
  | .addSpell spell =>
      if spell ∈ character.spells then s else s.put c { character with spells := character.spells ++ [spell] }
  | .delSpell spell => s.put c { character with spells := character.spells.filter (· ≠ spell) }

def State.logout (s : State T) (c : PlayerId) (character : Character T) : State T :=
  let s := s.cancel c character
  { s with characters := s.characters.erase c }

inductive Packet
  | request (spell : SpellId) (timestamp : Int) (e : EventId)
  | targetSelf (timestamp : Int)
  | targetOther (targetType victim : Nat) (timestamp : Int)
  | targetGroup (timestamp : Int)

inductive Event (T : Type*)
  | login (c : PlayerId) (map : Nat) (spells : List SpellId)
  | logout (c : PlayerId)
  | packet (c : PlayerId) (packet : Packet)
  | perform (c : PlayerId) (action : Action)
  | fire (e : EventId)
  | wait (now : T)
  | rehash (settings : Settings T)
  | npcs (map : Nat) (npcs : List Nat)

section Step

variable [LinearOrder T] [Add T] [Sub T] [Zero T] (chant : Nat → T) (s : State T)

def State.handle (c : PlayerId) (character : Character T) : Packet → Option (State T)
  | .request spell timestamp e => s.request chant c character spell (.ofInt timestamp) e
  | .targetSelf timestamp => s.targetSelf c character (.ofInt timestamp)
  | .targetOther targetType victim timestamp => s.targetOther c character targetType victim (.ofInt timestamp)
  | .targetGroup timestamp => s.targetGroup c character (.ofInt timestamp)

/-- The clock does not go back. -/
def step : Event T → Option (State T)
  | .login c map spells =>
      if (s.characters.lookup c).isSome then none
      else s.put c ⟨map, spells, .unknown, false, 0, none, .invalid, 0, 0⟩
  | .logout c => (s.characters.lookup c).map (s.logout c)
  | .packet c packet => (s.characters.lookup c).bind (s.handle chant c · packet)
  | .perform c action => (s.characters.lookup c).map (s.perform c · action)
  | .fire e => s.fire e
  | .wait now => if s.now ≤ now then some { s with now := now } else none
  | .rehash settings => some { s with settings := settings }
  | .npcs map npcs => some { s with npcs := Function.update s.npcs map npcs }

end Step

end Model

end Etheos.Spells
