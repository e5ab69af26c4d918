import Etheos.Character.World
import Etheos.General.Double
import Mathlib.Data.Int.ConditionallyCompleteOrder
import Mathlib.Data.List.Sort
import Mathlib.Order.Monotone.Defs

/-! The ways in which characters get experience, and what it makes of their levels. -/
namespace Etheos.Experience

open Characters (IsInt toInt toShort)
open General (double)

abbrev PlayerId := Nat

/-- The address of a party. -/
abbrev PartyId := Nat

/-- `expTable` has more entries than the array of the program, which ends at level 253. -/
structure Config where
  maxExp : Int
  maxLevel : Int
  statPerLevel : Int
  skillPerLevel : Int
  expTable : Nat → Int
  increasing : StrictMono expTable

structure Character where
  exp : Int
  level : Nat
  statpoints : Int
  skillpoints : Int
  map : Nat
  nowhere : Bool
  canInteractCombat : Bool
  party : Option PartyId

/-- Nobody is a member twice. -/
structure Party where
  members : List PlayerId
  nodup : members.Nodup
  tempExpsum : Int

structure State where
  characters : PlayerId → Character
  parties : PartyId → Party

/-- `int(std::ceil(x))`. A number that is too large becomes the least `int`. -/
def ceilInt (x : Rat) : Int :=
  if IsInt ⌈x⌉ then ⌈x⌉ else -2 ^ 31

namespace Character

/-- `exp += reward`. -/
def earn (character : Character) (reward : Int) : Character :=
  { character with exp := toInt (character.exp + reward) }

variable (cfg : Config) (character : Character)

/-- One more level, and the points for it. -/
def levelUp : Character :=
  { character with
    level := character.level + 1
    statpoints := toShort (character.statpoints + cfg.statPerLevel)
    skillpoints := toShort (character.skillpoints + cfg.skillPerLevel) }

/-- The character has the experience for the next level. -/
def Ripe : Prop := character.level < cfg.maxLevel ∧ cfg.expTable (character.level + 1) ≤ character.exp

instance : Decidable (character.Ripe cfg) := inferInstanceAs (Decidable (_ ∧ _))

/-- The `while` loop, which is left at `MaxLevel` at the latest. -/
def levels : Nat → Character → Character
  | 0, character => character
  | left + 1, character =>
      if character.Ripe cfg then levels left (character.levelUp cfg) else character

/-- What follows the addition in `Item_Use`, in `DoAction` and in `Killed`. -/
def settle : Character :=
  let character := { character with exp := min character.exp cfg.maxExp }
  levels cfg (cfg.maxLevel - character.level).toNat character

/-- In `Killed` there are characters that get nothing, and are seen to like the others. -/
def award : Option Int → Character
  | some reward => (character.earn reward).settle cfg
  | none => character.settle cfg

/-- What `ShareEXP` does to a member. -/
def portion (reward : Int) : Character :=
  let character := character.earn reward
  if character.Ripe cfg then character.levelUp cfg else character

/-- In `ShareEXP` level 0 counts as level 1. -/
def weight : Nat := if character.level = 0 then 1 else character.level

end Character

namespace State

variable (cfg : Config) (s : State)

def update (c : PlayerId) (f : Character → Character) : State :=
  { s with characters := Function.update s.characters c (f (s.characters c)) }

def setExpsum (p : PartyId) (exp : Int) : State :=
  { s with parties := Function.update s.parties p { s.parties p with tempExpsum := exp } }

/-- The members that `ShareEXP` does not leave out. -/
def shares (map : Nat) (m : PlayerId) : Prop :=
  (s.characters m).canInteractCombat ∧ (s.characters m).map = map ∧ ¬(s.characters m).nowhere

instance (map : Nat) (m : PlayerId) : Decidable (s.shares map m) := inferInstanceAs (Decidable (_ ∧ _))

def sharing (p : PartyId) (map : Nat) : List PlayerId :=
  (s.parties p).members.filter (s.shares map)

def sumlevel (p : PartyId) (map : Nat) : Nat :=
  ((s.sharing p map).map fun m => (s.characters m).weight).sum

/-- The `reward` of a member. -/
def reward (sharemode exp : Int) (members sumlevel : Nat) (character : Character) : Int :=
  match sharemode with
  | 1 => ceilInt (double ((exp : Rat) / members))
  | 2 => ceilInt (double (double ((exp : Rat) * character.weight) / sumlevel))
  | _ => 0

/-- `ShareEXP`. -/
def shareExp (p : PartyId) (exp sharemode : Int) (map : Nat) : State :=
  let sumlevel := s.sumlevel p map
  let members := (s.sharing p map).length
  if members = 0 ∨ sumlevel = 0 then s
  else (s.parties p).members.foldl (fun s member =>
    if s.shares map member then
      s.update member fun character => character.portion cfg (reward sharemode exp members sumlevel character)
    else s) s

end State

structure Opponent where
  attacker : PlayerId
  damage : Int

/-- A killed NPC, and what `Killed` finds: the characters of the map in their order, the list of
those who did it damage, and the settings. -/
structure Kill where
  killer : PlayerId
  map : Nat
  characters : List PlayerId
  damagelist : List Opponent
  totaldamage : Int
  exp : Int
  exprate : Rat
  sharemode : Int
  partysharemode : Int

/-- What is done to the experience, one thing after the other. -/
inductive Award
  | award (c : PlayerId) (reward : Option Int)
  | share (p : PartyId) (exp sharemode : Int) (map : Nat)
  | pool (p : PartyId) (exp : Int)
  | drain (p : PartyId) (sharemode : Int) (map : Nat)

def perform (cfg : Config) (s : State) : Award → State
  | .award c reward => s.update c fun character => character.award cfg reward
  | .share p exp sharemode map => s.shareExp cfg p exp sharemode map
  | .pool p exp => s.setExpsum p (toInt ((s.parties p).tempExpsum + exp))
  | .drain p sharemode map => (s.shareExp cfg p (s.parties p).tempExpsum sharemode map).setExpsum p 0

namespace Kill

variable (kill : Kill)

/-- The first one with the most damage, if it is above `counter`. -/
def mostDamage : List Opponent → Int → Option PlayerId → Option PlayerId
  | [], _, most => most
  | opponent :: rest, counter, most =>
      if opponent.damage > counter then mostDamage rest opponent.damage (some opponent.attacker)
      else mostDamage rest counter most

/-- The `reward` of an opponent. -/
def reward (opponent : Opponent) : Int :=
  let exp := double ((kill.exp : Rat) * kill.exprate)
  match kill.sharemode with
  | 2 => ceilInt (double (exp * double ((opponent.damage : Rat) / kill.totaldamage)))
  | 3 => ceilInt (double (exp * kill.damagelist.length))
  | _ => ceilInt exp

/-- Who is to have the reward. -/
def gets (c : PlayerId) : Bool :=
  match kill.sharemode with
  | 0 => c = kill.killer
  | 1 => mostDamage kill.damagelist 0 none = some c
  | 2 => true
  | 3 => true
  | _ => false

/-- The reward of one who has a party goes to the party: at once, or to a sum for later. -/
def give (party : Option PartyId) (c : PlayerId) (reward : Int) : List Award :=
  match party with
  | none => [.award c (some reward)]
  | some p =>
      if kill.partysharemode = 0 then [.award c (some reward)]
      else if kill.sharemode = 0 ∨ kill.sharemode = 1 then
        [.share p reward kill.partysharemode kill.map, .award c none]
      else [.pool p reward, .award c none]

/-- What the loop over the characters of the map does when it comes to one of them. -/
def turn (s : State) (c : PlayerId) : List Award :=
  match kill.damagelist.find? (·.attacker = c) with
  | none => []
  | some opponent =>
      if kill.exp = 0 then []
      else if kill.gets c ∧ 0 < kill.reward opponent then kill.give (s.characters c).party c (kill.reward opponent)
      else [.award c none]

/-- `parties`, in the order of a set. It is forgotten for mode 3. -/
def parties (turns : List Award) : List PartyId :=
  if kill.sharemode = 2 then
    (turns.filterMap fun award => match award with | .pool p _ => some p | _ => none).dedup.insertionSort (· ≤ ·)
  else []

/-- `Killed`, as far as it is about experience. -/
def awards (s : State) : List Award :=
  let turns := kill.characters.flatMap (kill.turn s)
  turns ++ (kill.parties turns).map (.drain · kill.partysharemode kill.map)

end Kill

inductive Event
  | expReward (c : PlayerId) (expreward : Int)
  | giveexp (c : PlayerId) (amount : Int)
  | killed (kill : Kill)

def awards (s : State) : Event → List Award
  | .expReward c amount => [.award c (some amount)]
  | .giveexp c amount => [.award c (some amount)]
  | .killed kill => kill.awards s

def step (cfg : Config) (s : State) (event : Event) : State :=
  (awards s event).foldl (perform cfg) s

end Etheos.Experience
