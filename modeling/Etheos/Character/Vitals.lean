import Etheos.Character.World
import Etheos.General.Double

/-! What is done to the hp and the tp of characters. Both are shorts, and so are the amounts of items
and spells. -/
namespace Etheos.Vitals

open Characters (IsInt toShort)
open General (double)

abbrev PlayerId := Nat

def IsShort (n : Int) : Prop := -2 ^ 15 ≤ n ∧ n < 2 ^ 15

structure Config where
  limitDamage : Bool
  deathRecover : Rat
  spikeDamage : Rat
  drainHPDamage : Rat
  drainTPDamage : Rat
  hpRecoverRate : Rat
  sitHPRecoverRate : Rat
  tpRecoverRate : Rat
  sitTPRecoverRate : Rat

structure Character where
  hp : Int
  tp : Int
  maxhp : Int
  maxtp : Int
  map : Nat
  spawnMap : Nat
  nowhere : Bool
  hideInvisible : Bool
  sitting : Bool
  canInteractCombat : Bool
  canInteractPKCombat : Bool
  maxhp_isShort : IsShort maxhp
  maxtp_isShort : IsShort maxtp

structure Item where
  hp : Int
  tp : Int
  hp_isShort : IsShort hp
  tp_isShort : IsShort tp

inductive SpellType
  | heal
  | damage
  | bard
deriving DecidableEq

structure Spell where
  type : SpellType
  tp : Int
  hp : Int
  tp_isShort : IsShort tp
  hp_isShort : IsShort hp

/-- Nobody is a member twice. -/
structure Party where
  members : List PlayerId
  nodup : members.Nodup

/-- Nobody is on a map, or in the world, twice. -/
structure Crowd where
  characters : List PlayerId
  nodup : characters.Nodup

/-- `static_cast<int>` of a double. A number that is too large becomes the least `int`. -/
def castInt (x : Rat) : Int :=
  let whole := if 0 ≤ x then ⌊x⌋ else ⌈x⌉
  if IsInt whole then whole else -2 ^ 31

namespace Character

variable (cfg : Config) (c : Character)

/-- With `LimitDamage`, a gain is cut to what is missing. It never takes anything. -/
def gain (amount missing : Int) : Int :=
  max (if cfg.limitDamage then min amount missing else amount) 0

/-- Without `LimitDamage`, the sum is cut. It has been stored as a short before. -/
def restore (now gain most : Int) : Int :=
  if cfg.limitDamage then toShort (now + gain) else min (toShort (now + gain)) most

/-- `Item_Use`, for an item of the type `Heal`. -/
def useItem (item : Item) : Character :=
  let hpgain := gain cfg item.hp (c.maxhp - c.hp)
  let tpgain := gain cfg item.tp (c.maxtp - c.tp)
  if hpgain = 0 ∧ tpgain = 0 then c
  else { c with
    hp := restore cfg c.hp hpgain c.maxhp
    tp := restore cfg c.tp tpgain c.maxtp }

/-- What the spell costs. -/
def spend (spell : Spell) : Character :=
  { c with tp := toShort (c.tp - spell.tp) }

/-- `SpellSelf`. -/
def spellSelf (spell : Spell) : Character :=
  if spell.type ≠ .heal ∨ c.tp < spell.tp then c
  else
    let c := c.spend spell
    let hpgain := gain cfg spell.hp (c.maxhp - c.hp)
    { c with hp := min (toShort (c.hp + hpgain)) c.maxhp }

/-- What others get of a heal spell. It is one point at most from those who must not fight. -/
def mend (spell : Spell) (fights : Bool) : Character :=
  let hpgain := gain cfg spell.hp (c.maxhp - c.hp)
  let hpgain := if fights then hpgain else min hpgain 1
  { c with hp := restore cfg c.hp hpgain c.maxhp }

/-- `limitamount` is taken. -/
def hurt (amount : Int) : Character :=
  { c with hp := toShort (c.hp - min amount c.hp) }

/-- The hp of those who come back. -/
def recovered : Int :=
  toShort (castInt (double (double (c.maxhp * cfg.deathRecover) / 100)))

/-- `DeathRespawn`. -/
def deathRespawn : Character :=
  { c with hp := c.recovered cfg, nowhere := true, map := c.spawnMap }

/-- What follows an attack, or a step on spikes. -/
def fall : Character :=
  if c.hp = 0 then c.deathRespawn cfg else c

/-- What `Map::Attack`, `SpellAttackPK` and `NPC::Attack` do to the victim, when the formulas have been evaluated. -/
def attacked (amount : Int) : Character :=
  (c.hurt (max amount 0)).fall cfg

/-- The amount of `SpikeDamage`. -/
def spikeAmount : Int :=
  castInt (double (c.maxhp * cfg.spikeDamage))

/-- A step on spikes, at the end of `Map::Walk`. -/
def stepOnSpikes : Character :=
  if cfg.spikeDamage > 0 ∧ ¬c.hideInvisible then (c.hurt (c.spikeAmount cfg)).fall cfg else c

/-- The first loop of `TimedSpikes`. -/
def timedSpikes (spikes : Bool) : Character :=
  if c.nowhere ∨ c.hideInvisible then c
  else if cfg.spikeDamage > 0 ∧ spikes then c.hurt (c.spikeAmount cfg)
  else c

/-- The character is in the list of the second loop. -/
def timedKilled (spikes : Bool) : Bool :=
  ¬(c.nowhere ∨ c.hideInvisible) ∧ cfg.spikeDamage > 0 ∧ spikes ∧ (c.timedSpikes cfg spikes).hp = 0

/-- `TimedDrains` on a map that drains hp. It leaves one point. -/
def hpDrain : Character :=
  if c.nowhere ∨ c.hideInvisible then c
  else
    let amount := max (min (castInt (double (c.maxhp * cfg.drainHPDamage))) (c.hp - 1)) 0
    { c with hp := toShort (c.hp - amount) }

/-- `TimedDrains` on a map that drains tp. -/
def tpDrain : Character :=
  if c.nowhere ∨ c.hideInvisible then c
  else if cfg.drainTPDamage > 0 then
    let amount := min (castInt (double (c.maxtp * cfg.drainTPDamage))) c.tp
    { c with tp := toShort (c.tp - amount) }
  else c

/-- What is recovered in a tick: the part `rate` of `most`. -/
def part (rate : Rat) (most : Int) : Int :=
  toShort (castInt (double (most * rate)))

def hpPart : Int :=
  part (if c.sitting then cfg.sitHPRecoverRate else cfg.hpRecoverRate) c.maxhp

def tpPart : Int :=
  part (if c.sitting then cfg.sitTPRecoverRate else cfg.tpRecoverRate) c.maxtp

/-- The loop of `world_recover`. -/
def recover : Character :=
  { c with
    hp := if c.hp ≠ c.maxhp then min (toShort (c.hp + c.hpPart cfg)) c.maxhp else c.hp
    tp := if c.tp ≠ c.maxtp then min (toShort (c.tp + c.tpPart cfg)) c.maxtp else c.tp }

end Character

abbrev State := PlayerId → Character

namespace State

variable (cfg : Config) (s : State)

def change (c : PlayerId) (f : Character → Character) : State :=
  Function.update s c (f (s c))

/-- A loop over characters. -/
def changeAll (characters : List PlayerId) (f : PlayerId → Character → Character) : State :=
  characters.foldl (fun s c => s.change c (f c)) s

/-- `SpellAttack`. What it does to the NPC is no matter of the characters. -/
def spellAttack (caster : PlayerId) (spell : Spell) (alive : Bool) : State :=
  if ¬(s caster).canInteractCombat then s
  else if spell.type ≠ .damage ∨ (s caster).tp < spell.tp then s
  else if alive then s.change caster (·.spend spell)
  else s

/-- `pk` is for a map with PK, or for `GlobalPK` on a map that is not an exception. -/
def fights (caster : PlayerId) (pk : Bool) : Bool :=
  (s caster).canInteractCombat || ((s caster).canInteractPKCombat && pk)

/-- `SpellAttackPK`. -/
def spellAttackPK (caster victim : PlayerId) (spell : Spell) (pk : Bool) (amount : Int) : State :=
  if (spell.type ≠ .heal ∧ spell.type ≠ .damage) ∨ (s caster).tp < spell.tp then s
  else if spell.type = .damage ∧ pk then
    if ¬(s caster).canInteractPKCombat then s
    else (s.change caster (·.spend spell)).change victim (·.attacked cfg amount)
  else if spell.type = .heal then
    (s.change caster (·.spend spell)).change victim
      (·.mend cfg spell (s.fights caster pk || caster = victim))
  else s

/-- `SpellGroup`. -/
def spellGroup (caster : PlayerId) (spell : Spell) (party : Option Party) (pk : Bool) : State :=
  match party with
  | none => s
  | some party =>
      if spell.type ≠ .heal ∨ (s caster).tp < spell.tp then s
      else
        (s.change caster (·.spend spell)).changeAll party.members fun _ member =>
          if member.map ≠ (s caster).map then member else member.mend cfg spell (s.fights caster pk)

/-- `TimedSpikes`, with its two loops. -/
def timedSpikes (onMap : Crowd) (spikes : PlayerId → Bool) : State :=
  let killed := onMap.characters.filter fun c => (s c).timedKilled cfg (spikes c)
  (s.changeAll onMap.characters fun c character => character.timedSpikes cfg (spikes c)).changeAll killed
    fun _ character => character.deathRespawn cfg

end State

inductive Event
  | useItem (c : PlayerId) (item : Item)
  | spellSelf (caster : PlayerId) (spell : Spell)
  | spellAttack (caster : PlayerId) (spell : Spell) (alive : Bool)
  | spellAttackPK (caster victim : PlayerId) (spell : Spell) (pk : Bool) (amount : Int)
  | spellGroup (caster : PlayerId) (spell : Spell) (party : Option Party) (pk : Bool)
  | attack (victim : PlayerId) (amount : Int)
  | stepOnSpikes (c : PlayerId)
  | timedSpikes (onMap : Crowd) (spikes : PlayerId → Bool)
  | hpDrain (onMap : Crowd)
  | tpDrain (onMap : Crowd)
  | recover (world : Crowd)

def step (cfg : Config) (s : State) : Event → State
  | .useItem c item => s.change c (·.useItem cfg item)
  | .spellSelf caster spell => s.change caster (·.spellSelf cfg spell)
  | .spellAttack caster spell alive => s.spellAttack caster spell alive
  | .spellAttackPK caster victim spell pk amount => s.spellAttackPK cfg caster victim spell pk amount
  | .spellGroup caster spell party pk => s.spellGroup cfg caster spell party pk
  | .attack victim amount => s.change victim (·.attacked cfg amount)
  | .stepOnSpikes c => s.change c (·.stepOnSpikes cfg)
  | .timedSpikes onMap spikes => s.timedSpikes cfg onMap spikes
  | .hpDrain onMap => s.changeAll onMap.characters fun _ character => character.hpDrain cfg
  | .tpDrain onMap => s.changeAll onMap.characters fun _ character => character.tpDrain cfg
  | .recover world => s.changeAll world.characters fun _ character => character.recover cfg

end Etheos.Vitals
