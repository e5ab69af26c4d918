import Etheos.Character.World

/-! The functions of a character: taking and losing items, moving, dying, the
quest checks that all of them run, and the end of a trade. -/
namespace Etheos.Characters

/-- What an action of a quest does to a character. An action that checks the
rules only is `calculateStats`, one that throws is `fail`. -/
inductive QuestAction
  | warp (map : Int)
  | giveItem (id amount : Int)
  | removeItem (id amount : Int)
  | calculateStats
  | fail
  deriving Repr, DecidableEq

/-- The actions that a quest check runs, at the empty path, and those of the
checks that happen in the course of it, each at a path of its own. -/
def Quests := List Nat → List QuestAction

namespace Quests

def actions (quests : Quests) : List QuestAction := quests []

def sub (quests : Quests) (i : Nat) : Quests := fun path => quests (i :: path)

def quiet : Quests := fun _ => []

/-- The check at the path runs the actions, and all other checks run none. -/
def only (path : List Nat) (actions : List QuestAction) : Quests :=
  fun path' => if path' = path then actions else []

end Quests

/-- `CheckQuestRules` below some depth of recursion. -/
abbrev Check := Quests → CharId → Prog Unit

namespace CharacterItem

/-- The amount of the first entry. -/
def amountOf (items : List CharacterItem) (id : Int) : Int :=
  match items.find? (·.id = id) with
  | some item => item.amount
  | none => 0

/-- A stack that is there already is cut at `MaxItem`, a new one is not. -/
def add (maxItem id amount : Int) : List CharacterItem → Option (List CharacterItem)
  | [] => some [of id amount]
  | item :: rest =>
      if item.id = id then
        if toInt (item.amount + amount) < 0 then none
        else some (of id (min (toInt (item.amount + amount)) maxItem) :: rest)
      else (add maxItem id amount rest).map (item :: ·)

def del (id amount : Int) : List CharacterItem → Option (List CharacterItem)
  | [] => none
  | item :: rest =>
      if item.id = id then
        if item.amount < 0 ∨ item.amount - amount ≤ 0 then some rest
        else some (of id (item.amount - amount) :: rest)
      else (del id amount rest).map (item :: ·)

/-- The first entry gets the amount that is computed from the old one. -/
def change (id : Int) (f : Int → Int) : List CharacterItem → List CharacterItem
  | [] => []
  | item :: rest => if item.id = id then of id (f item.amount) :: rest else item :: change id f rest

def erase (id : Int) : List CharacterItem → Option (List CharacterItem)
  | [] => none
  | item :: rest => if item.id = id then some rest else (erase id rest).map (item :: ·)

/-- What is read from the database. Entries that make no sense are discarded. -/
def itemUnserialize (parts : List CharacterItem) : List CharacterItem :=
  (parts.filter fun part => ¬(part.id < 1 ∨ 65535 < part.id ∨ part.amount < 1)).map fun part =>
    { part with id := toShort part.id }

end CharacterItem

open CharacterItem

def hasItem (self : Character) (item : Int) (includeTrade : Bool) : Int :=
  match self.inventory.find? (·.id = item) with
  | none => 0
  | some it =>
      if self.trading ∧ ¬includeTrade then
        match self.tradeInventory.find? (·.id = item) with
        | some tradeItem => max (it.amount - tradeItem.amount) 0
        | none => it.amount
      else it.amount

section

variable (cfg : Config) (check : Check)

/-- Of `CalculateStats` only the quest check matters here. -/
def calculateStats (quests : Quests) (c : CharId) : Prog Unit := check quests c

def addItem (quests : Quests) (c : CharId) (item amount : Int) : Prog Bool := do
  if amount ≤ 0 then return false
  else if item ≤ 0 ∨ cfg.eifSize ≤ item then return false
  else
    let self ← getCharacter c
    match add cfg.maxItem item amount self.inventory with
    | none => return false
    | some inventory =>
        modifyCharacter c ({ · with inventory := inventory })
        calculateStats check quests c
        return true

def delItem (quests : Quests) (c : CharId) (item amount : Int) : Prog Bool := do
  if amount ≤ 0 then return false
  else
    let self ← getCharacter c
    match del item amount self.inventory with
    | none => return false
    | some inventory =>
        modifyCharacter c ({ · with inventory := inventory })
        calculateStats check quests c
        return true

/-- The end of a trade that `Warp`, `walk_common`, `Logout` and `Trade_Close`
have in common. The flag of the partner is not reset. -/
def closeTrade (quests : Quests) (c : CharId) : Prog Unit := do
  let p ← tradePartner c
  modifyCharacter c ({ · with trading := false, tradeInventory := [], tradeAgree := false })
  modifyCharacter p ({ · with trading := false, tradeInventory := [] })
  modifyCharacter c ({ · with tradeAgree := false })
  note (.closed c p)
  check (quests.sub 0) c
  check (quests.sub 1) (← tradePartner c)
  modifyCharacter (← tradePartner c) ({ · with tradePartner := none })
  modifyCharacter c ({ · with tradePartner := none })

def leaveTrade (quests : Quests) (c : CharId) : Prog Unit := do
  let self ← getCharacter c
  if self.trading then closeTrade check quests c else return ()

/-- The last check is the one of `Map::Enter`. -/
def warp (quests : Quests) (c : CharId) (map : Int) : Prog Unit := do
  if cfg.mapExists map then
    modifyCharacter c ({ · with mapid := map, sitting := false, npc := 0, npcType := .npc })
    leaveTrade check (quests.sub 0) c
    modifyCharacter c ({ · with nowhere := false })
    check (quests.sub 1) c
  else return ()

def runAction (quests : Quests) (c : CharId) : QuestAction → Prog Unit
  | .warp map => warp cfg check quests c map
  | .giveItem item amount => discard (addItem cfg check quests c (toShort item) (toInt amount))
  | .removeItem item amount => discard (delItem check quests c (toShort item) (toInt amount))
  | .calculateStats => calculateStats check quests c
  | .fail => throw .runtimeError

def runActions (quests : Quests) (c : CharId) : List QuestAction → Prog Unit
  | [] => return ()
  | action :: actions => do
      runAction cfg check (quests.sub 0) c action
      runActions (quests.sub 1) c actions

end

/-- `max_recursion`. -/
def maxRecursion : Nat := 100

/-- A check in the course of a check is one level deeper. -/
def checkQuestRules (cfg : Config) : Nat → Check
  | 0, quests, _ => if quests.actions = [] then return () else throw .runtimeError
  | depth + 1, quests, c => runActions cfg (checkQuestRules cfg depth) quests c quests.actions

section

variable (cfg : Config)

def check : Check := checkQuestRules cfg maxRecursion

def addTradeItem (quests : Quests) (c : CharId) (item amount : Int) : Prog Bool := do
  if item ≤ 0 ∨ cfg.eifSize ≤ item then return false
  else
    let self ← getCharacter c
    let amount := min amount (hasItem self item (!cfg.tradeAddQuantity))
    let tradeItem := self.tradeInventory.foldl (fun n i => if i.id = item then i.amount else n) 0
    if amount ≤ 0 ∨ cfg.maxTrade < amount then return false
    else if cfg.tradeAddQuantity ∧
        (toInt (tradeItem + amount) < 0 ∨ cfg.maxTrade < toInt (tradeItem + amount)) then
      return false
    else if self.tradeInventory.any (·.id = item) then
      let update := fun old => if cfg.tradeAddQuantity then toInt (old + amount) else amount
      modifyCharacter c ({ · with tradeInventory := change item update self.tradeInventory })
      return true
    else
      modifyCharacter c ({ · with tradeInventory := self.tradeInventory ++ [.of item amount] })
      check cfg quests c
      return true

def delTradeItem (quests : Quests) (c : CharId) (item : Int) : Prog Bool := do
  let self ← getCharacter c
  match erase item self.tradeInventory with
  | none => return false
  | some tradeInventory =>
      modifyCharacter c ({ · with tradeInventory := tradeInventory })
      check cfg quests c
      return true

/-- The slots `Ring2`, `Armlet2` and `Bracer2`. -/
def sublocOf (slot : Nat) : Nat :=
  if slot = 10 ∨ slot = 12 ∨ slot = 14 then 1 else 0

def unequip (quests : Quests) (c : CharId) (item : Int) (subloc : Nat) : Prog Bool := do
  if item = 0 then return false
  else
    let self ← getCharacter c
    let worn := fun slot => self.paperdoll.getD slot 0 = item ∧ sublocOf slot = subloc
    match (List.range self.paperdoll.length).find? worn with
    | none => return false
    | some slot =>
        modifyCharacter c ({ · with paperdoll := self.paperdoll.set slot 0 })
        discard (addItem cfg (check cfg) (quests.sub 0) c item 1)
        calculateStats (check cfg) (quests.sub 1) c
        return true

/-- The part of `DropAll` for the paperdoll. -/
def dropPaperdoll (c : CharId) : Quests → List Nat → Prog Unit
  | _, [] => return ()
  | quests, slot :: slots => do
      let self ← getCharacter c
      let id := self.paperdoll.getD slot 0
      if id = 0 ∨ cfg.special id = .lore ∨ cfg.special id = .cursed then
        dropPaperdoll c quests slots
      else
        discard (unequip cfg (quests.sub 0) c (toShort id) (sublocOf slot))
        discard (delItem (check cfg) (quests.sub 1) c (toShort id) 1)
        dropPaperdoll c (quests.sub 2) slots

def dropAll (quests : Quests) (c : CharId) : Prog Unit := do
  let self ← getCharacter c
  if self.nointeract then return ()
  else
    let lore := self.inventory.filter fun item => cfg.special item.id = .lore
    modifyCharacter c ({ · with inventory := lore })
    calculateStats (check cfg) (quests.sub 0) c
    dropPaperdoll cfg c (quests.sub 1) (List.range self.paperdoll.length)

def deathRespawn (quests : Quests) (c : CharId) : Prog Unit := do
  (if cfg.deadly then dropAll cfg quests c else return ())
  modifyCharacter c ({ · with nowhere := true, mapid := cfg.spawnMap c })

end

end Etheos.Characters
