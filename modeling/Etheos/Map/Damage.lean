import Etheos.Character.World
import Etheos.General.Entries
import Etheos.General.Run
import Mathlib.Data.List.Nodup

/-! Who has done how much damage to an NPC. NPCs and characters are objects with addresses, which
are used again when an object is deleted. -/
namespace Etheos.Ledgers

open Characters (toInt)
open General

abbrev NpcId := Nat

abbrev CharId := Nat

structure Opponent where
  attacker : CharId
  damage : Int

/-- What the files say of a kind of NPC. -/
structure ENF where
  hp : Nat
  attackable : Bool
  boss : Bool
  child : Bool

structure NPC where
  id : Nat
  map : Nat
  temporary : Bool
  alive : Bool
  hp : Int
  totaldamage : Int
  damagelist : List Opponent

structure Character where
  online : Bool
  unregisterNpc : List NpcId

structure State where
  limitDamage : Bool
  enf : Nat → ENF
  maps : Nat → List NpcId
  npcs : NpcId → Option NPC
  characters : CharId → Option Character

def State.start (limitDamage : Bool) (enf : Nat → ENF) : State :=
  ⟨limitDamage, enf, fun _ => [], fun _ => none, fun _ => none⟩

namespace Opponent

variable (c : CharId) (amount : Int) (opponent : Opponent)

/-- A sum that has run over is not taken. -/
def hit : Opponent :=
  if toInt (opponent.damage + amount) > opponent.damage then
    { opponent with damage := toInt (opponent.damage + amount) }
  else opponent

/-- The loop over the list, which does not stop at the first entry. -/
def hits : List Opponent → List Opponent :=
  List.map fun opponent => if opponent.attacker = c then opponent.hit amount else opponent

end Opponent

namespace NPC

variable (npc : NPC) (c : CharId)

def attackers : List CharId := npc.damagelist.map (·.attacker)

def clear : NPC := { npc with damagelist := [], totaldamage := 0 }

/-- The damage is added to what the character has done, or it is written down for the first time. -/
def credit (amount : Int) : NPC :=
  { npc with
    totaldamage := if toInt (npc.totaldamage + amount) > npc.totaldamage then toInt (npc.totaldamage + amount)
      else npc.totaldamage
    damagelist := if c ∈ npc.attackers then Opponent.hits c amount npc.damagelist
      else npc.damagelist ++ [⟨c, amount⟩] }

/-- The entry of a character that leaves. -/
def retract : NPC :=
  match npc.damagelist.find? (·.attacker = c) with
  | some opponent =>
      { npc with
        totaldamage := toInt (npc.totaldamage - opponent.damage)
        damagelist := Entries.eraseFirst (·.attacker = c) npc.damagelist }
  | none => npc

end NPC

namespace State

variable (s : State) (n : NpcId) (npc : NPC) (c : CharId)

def put : State := { s with npcs := Function.update s.npcs n (some npc) }

def setCharacter (character : Option Character) : State :=
  { s with characters := Function.update s.characters c character }

def modify (f : Character → Character) : State :=
  s.setCharacter c ((s.characters c).map f)

/-- The loop that takes the NPC from the lists of its attackers. -/
def unregister : State :=
  npc.damagelist.foldl (fun s opponent => s.modify opponent.attacker fun character =>
    { character with unregisterNpc := character.unregisterNpc.filter (· ≠ n) }) s

/-- `delete` of an NPC, by `~NPC`. -/
def delete : State :=
  let s := s.unregister n npc
  { s with npcs := Function.update s.npcs n none }

/-- The end of an NPC that does not come again. -/
def deleteTemporary : State :=
  if npc.temporary then
    State.delete { s with maps := Function.update s.maps npc.map ((s.maps npc.map).filter (· ≠ n)) } n npc
  else s

/-- What `Killed` and `Die` have in common. -/
def fall : State :=
  (s.unregister n npc).put n { npc.clear with alive := false }

/-- `Die`. -/
def die : State :=
  match s.npcs n with
  | none => s
  | some npc =>
      if npc.alive then (s.fall n npc).deleteTemporary n { npc.clear with alive := false } else s

/-- The children that die with their boss. -/
def children (map : Nat) : List NpcId :=
  (s.maps map).filter fun n => match s.npcs n with
    | some npc => (s.enf npc.id).child && !(s.enf npc.id).boss && npc.alive
    | none => false

/-- `Killed`. -/
def killed : State :=
  let s := s.fall n npc
  let s := if (s.enf npc.id).boss then (s.children npc.map).foldl State.die s else s
  s.deleteTemporary n { npc.clear with alive := false }

/-- `Damage`. -/
def damage (amount : Int) : State :=
  let limitamount := min npc.hp amount
  let amount := if s.limitDamage then limitamount else amount
  let hp := if (s.enf npc.id).attackable then npc.hp - amount else 0
  let hurt := { npc.credit c limitamount with hp := hp }
  let s := s.put n hurt
  let s := if c ∈ npc.attackers then s
    else s.modify c fun character => { character with unregisterNpc := character.unregisterNpc ++ [n] }
  if hp > 0 then s else s.killed n hurt

/-- `Logout`. The list of the character stays as it is. -/
def logout (character : Character) : State :=
  if character.online then
    let s := character.unregisterNpc.foldl (fun s n =>
      match s.npcs n with
      | some npc => s.put n (npc.retract c)
      | none => s) s
    s.setCharacter c (some { character with online := false })
  else s

/-- `Unload`, for one NPC of the map. -/
def unloadNpc (s : State) (n : NpcId) : State :=
  match s.npcs n with
  | none => s
  | some npc => (s.unregister n npc).delete n npc

/-- `Unload`. -/
def unload (map : Nat) : State :=
  let s := (s.maps map).foldl unloadNpc s
  { s with maps := Function.update s.maps map [] }

end State

/-- `Map::Attack` and `Map::SpellAttack` damage NPCs that are alive. Both do it for a character that is
online. `duty` changes over to another character and keeps the one that it logs out, `quit` deletes it. -/
inductive Event
  | damage (n : NpcId) (c : CharId) (amount : Int)
  | killed (n : NpcId)
  | die (n : NpcId)
  | newNpc (n : NpcId) (id map : Nat) (temporary : Bool)
  | spawn (n : NpcId)
  | unload (map : Nat)
  | newCharacter (c : CharId)
  | login (c : CharId)
  | duty (c : CharId)
  | quit (c : CharId)
  | rehash (limitDamage : Bool) (enf : Nat → ENF)

def step (s : State) : Event → Option State
  | .damage n c amount => do
      let npc ← s.npcs n
      let character ← s.characters c
      if npc.alive ∧ character.online then return s.damage n npc c amount else none
  | .killed n => (s.npcs n).map (s.killed n)
  | .die n => some (s.die n)
  | .newNpc n id map temporary =>
      if (s.npcs n).isSome then none
      else some { s.put n ⟨id, map, temporary, false, 0, 0, []⟩ with
        maps := Function.update s.maps map (s.maps map ++ [n]) }
  | .spawn n => (s.npcs n).map fun npc =>
      if npc.alive then s else s.put n { npc with alive := true, hp := (s.enf npc.id).hp }
  | .unload map => some (s.unload map)
  | .newCharacter c =>
      if (s.characters c).isSome then none else some (s.setCharacter c (some ⟨false, []⟩))
  | .login c => (s.characters c).map fun character => s.setCharacter c (some { character with online := true })
  | .duty c => (s.characters c).map (s.logout c)
  | .quit c => (s.characters c).map fun character => (s.logout c character).setCharacter c none
  | .rehash limitDamage enf => some { s with limitDamage := limitDamage, enf := enf }

end Etheos.Ledgers
