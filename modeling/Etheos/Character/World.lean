import Etheos.General.Hoare
import Mathlib.Algebra.Group.Int.Defs
import Mathlib.Algebra.Group.Nat.Defs
import Mathlib.Logic.Function.Basic

/-! Characters and the world they live in: the items they carry, the trade they
are in, and a record of what happened in the trades. -/
namespace Etheos.Characters

/-- The address of a character. It is not used again for another one. -/
abbrev CharId := Nat

/-- The range of an `int`. -/
def IsInt (n : Int) : Prop := -2 ^ 31 ≤ n ∧ n < 2 ^ 31

instance (n : Int) : Decidable (IsInt n) := inferInstanceAs (Decidable (_ ∧ _))

/-- The default of `MaxItem`. -/
theorem isInt_maxItem : IsInt 2000000000 := by
  decide

/-- The value of an `int` after an overflow. -/
def toInt (n : Int) : Int := Int.bmod n (2 ^ 32)

/-- The conversion to `short`. -/
def toShort (n : Int) : Int := Int.bmod n (2 ^ 16)

theorem toShort_toShort (n : Int) : toShort (toShort n) = toShort n := Int.bmod_bmod

theorem isInt_toInt (n : Int) : IsInt (toInt n) := by
  unfold IsInt toInt
  have hLow := Int.le_bmod (x := n) (m := 2 ^ 32) (by decide)
  have hHigh := Int.bmod_lt (x := n) (m := 2 ^ 32) (by decide)
  omega

theorem IsInt.toInt_eq {n : Int} (h : IsInt n) : toInt n = n := by
  unfold IsInt at h
  exact Int.bmod_eq_of_le (by omega) (by omega)

structure CharacterItem where
  id : Int
  amount : Int
  isInt : IsInt amount
  deriving DecidableEq

namespace CharacterItem

def of (id amount : Int) : CharacterItem := ⟨id, toInt amount, isInt_toInt amount⟩

@[simp] theorem of_id (id amount : Int) : (of id amount).id = id := rfl

@[simp] theorem of_amount (id amount : Int) : (of id amount).amount = toInt amount := rfl

end CharacterItem

inductive Special
  | normal | rare | unknownSpecial2 | unique | lore | cursed
  deriving Repr, DecidableEq

/-- A character that is `closed` is in the world still, but its client is not
served any more. One that is `gone` is deleted. -/
inductive Presence
  | absent | playing | closed | gone
  deriving Repr, DecidableEq

/-- The kinds of characters that are spoken to and that matter here. -/
inductive NpcType
  | npc | bank | shop | law
  deriving Repr, DecidableEq

def Presence.online (presence : Presence) : Bool :=
  presence = .playing ∨ presence = .closed

structure Character where
  presence : Presence
  mapid : Int
  /-- On no map, from a death to the warp that follows it. -/
  nowhere : Bool
  /-- The flag `NoInteractItems`. -/
  nointeract : Bool
  sitting : Bool
  timestamp : Int
  /-- The character that is spoken to, and what it is. -/
  npc : Nat
  npcType : NpcType
  inventory : List CharacterItem
  paperdoll : List Int
  goldbank : Int
  bank : List CharacterItem
  bankmax : Int
  partner : String
  fiance : String
  trading : Bool
  tradePartner : Option CharId
  tradeAgree : Bool
  tradeInventory : List CharacterItem
  deriving DecidableEq

/-- Notes about the trades, which the program itself does not take. -/
inductive Note
  | opened (c p : CharId)
  | agreed (c p : CharId) (agree : Bool)
  | changed (c p : CharId)
  | swapped (c p : CharId)
  | closed (c p : CharId)
  deriving Repr, DecidableEq

/-- The latest note comes first. -/
structure World where
  characters : CharId → Character
  log : List Note

/-- The configuration and the data files, which stay as they are. -/
structure Config where
  eifSize : Nat
  special : Int → Special
  mapExists : Int → Bool
  jailMap : Int
  spawnMap : CharId → Int
  maxItem : Int
  maxItem_isInt : IsInt maxItem
  maxTrade : Int
  tradeAddQuantity : Bool
  enforceTimestamps : Bool
  deadly : Bool

/-- Reasons why a handler stops. All but `runtimeError` are undefined behaviour. -/
inductive Fault
  /-- A null `trade_partner` is dereferenced. -/
  | nullPartner
  /-- A `trade_partner` that was deleted is dereferenced. -/
  | gonePartner
  /-- A loop goes on from a list node that was erased. -/
  | danglingIterator
  /-- A C++ exception. -/
  | runtimeError
  deriving Repr, DecidableEq

abbrev Prog := EStateM Fault World

namespace World

def modifyCharacter (w : World) (c : CharId) (f : Character → Character) : World :=
  { w with characters := Function.update w.characters c (f (w.characters c)) }

def note (w : World) (n : Note) : World :=
  { w with log := n :: w.log }

@[simp] theorem modifyCharacter_self (w : World) (c : CharId) (f : Character → Character) :
    (w.modifyCharacter c f).characters c = f (w.characters c) := by
  simp [modifyCharacter]

@[simp] theorem modifyCharacter_other (w : World) {c x : CharId} (f : Character → Character)
    (h : x ≠ c) : (w.modifyCharacter c f).characters x = w.characters x := by
  simp [modifyCharacter, h]

@[simp] theorem modifyCharacter_log (w : World) (c : CharId) (f : Character → Character) :
    (w.modifyCharacter c f).log = w.log := rfl

@[simp] theorem note_characters (w : World) (n : Note) :
    (w.note n).characters = w.characters := rfl

@[simp] theorem note_log (w : World) (n : Note) : (w.note n).log = n :: w.log := rfl

end World

def getCharacter (c : CharId) : Prog Character := do
  let w ← get
  return w.characters c

def modifyCharacter (c : CharId) (f : Character → Character) : Prog Unit :=
  modify (·.modifyCharacter c f)

def note (n : Note) : Prog Unit := modify (·.note n)

/-- `*character->trade_partner`. -/
def tradePartner (c : CharId) : Prog CharId := do
  let w ← get
  match (w.characters c).tradePartner with
  | none => throw .nullPartner
  | some p => if (w.characters p).presence.online then return p else throw .gonePartner

end Etheos.Characters
