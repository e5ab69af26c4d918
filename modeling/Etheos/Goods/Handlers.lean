import Etheos.Trade.Handlers

/-! The handlers by which characters come to items and part with them: banks,
lockers, shops, paperdolls, items and marriages. What a handler finds on the
map, or checks on a character that no trade is about, is given to it. -/
namespace Etheos.Goods

open Characters CharacterItem Trade

structure ShopTradeItem where
  id : Int
  buy : Int
  sell : Int
  deriving Repr, DecidableEq

structure ShopCraftIngredient where
  id : Int
  amount : UInt8
  deriving Repr, DecidableEq

structure ShopCraftItem where
  id : Int
  ingredients : List ShopCraftIngredient
  deriving Repr, DecidableEq

/-- The kinds of items that are used or worn, with the slots for these. -/
inductive ItemType
  | teleport (scrollmap : Int)
  | heal | hairDye | beer | effectPotion | cureCurse | expReward
  | oneslot (slot : Nat)
  | twoslot (slot1 slot2 : Nat)
  | other
  deriving Repr, DecidableEq

/-- The configuration of the trades, and that of all other dealings. -/
structure Market extends Config where
  shopTrade : Nat → List ShopTradeItem
  shopCraft : Nat → List ShopCraftItem
  itemType : Int → ItemType
  maxBankGold : Int
  baseBankSize : Int
  bankSizeStep : Int
  maxBank : Int
  bankUpgradeBase : Int
  bankUpgradeStep : Int
  maxBankUpgrades : Int
  maxShopBuy : Int
  maxDrop : Int
  marriagePrice : Int
  divorcePrice : Int

variable (cfg : Market)

/-- `CanHoldItem`, with the room that the weight leaves when there is a limit. -/
def canHoldItem (room : Option Int) (maxAmount : Int) : Int :=
  min (room.elim maxAmount (min · maxAmount)) cfg.maxItem

/-- The character is spoken to. -/
def npcOpen (npcType : NpcType) (character : CharId) (npc : Nat) : Prog Unit :=
  modifyCharacter character ({ · with npc := npc, npcType := npcType })

def bankOpen : CharId → Nat → Prog Unit := npcOpen .bank

def marriageOpen : CharId → Nat → Prog Unit := npcOpen .law

def shopOpen (character : CharId) (npc : Nat) : Prog Unit :=
  if cfg.shopTrade npc ≠ [] ∨ cfg.shopCraft npc ≠ [] then npcOpen .shop character npc
  else return ()

def bankAdd (quests : Quests) (character : CharId) (amount : Int) : Prog Unit := do
  let self ← getCharacter character
  if self.trading then return ()
  else if toInt amount ≤ 0 then return ()
  else
    let amount := min (toInt amount) (hasItem self 1 false)
    if self.npcType = .bank then
      let newgold := toInt (self.goldbank + amount)
      if newgold < self.goldbank ∨ cfg.maxBankGold < newgold then return ()
      else
        discard (delItem (check cfg.toConfig) quests character 1 amount)
        modifyCharacter character ({ · with goldbank := newgold })
    else return ()

/-- The only handler of a bank that does not look at `trading`. -/
def bankTake (quests : Quests) (character : CharId) (amount : Int) : Prog Unit := do
  let self ← getCharacter character
  if toInt amount ≤ 0 then return ()
  else if self.npcType = .bank then
    let newgold := toInt (self.goldbank - toInt amount)
    if self.goldbank < newgold ∨ newgold < 0 then return ()
    else
      modifyCharacter character ({ · with goldbank := newgold })
      discard (addItem cfg.toConfig (check cfg.toConfig) quests character 1 (toInt amount))
  else return ()

/-- `add_common`. -/
def lockerAddCommon (quests : Quests) (character : CharId) (item amount : Int) : Prog Unit := do
  discard (delItem (check cfg.toConfig) (quests.sub 0) character item amount)
  calculateStats (check cfg.toConfig) (quests.sub 1) character

def lockerAdd (quests : Quests) (character : CharId) (atVault : Bool) (item amount : Int) :
    Prog Unit := do
  let self ← getCharacter character
  let item := toShort item
  let amount := toInt amount
  if self.trading then return ()
  else if item = 1 then return ()
  else if amount ≤ 0 then return ()
  else if hasItem self item false < amount then return ()
  else if ¬atVault then return ()
  else
    match self.bank.find? (·.id = item) with
    | some it =>
        if toInt (it.amount + amount) < 0 then return ()
        else
          let amount := min amount (cfg.maxBank - it.amount)
          modifyCharacter character ({ · with bank := change item (· + amount) self.bank })
          lockerAddCommon cfg quests character item amount
    | none =>
        if cfg.baseBankSize + self.bankmax * cfg.bankSizeStep ≤ self.bank.length then return ()
        else
          let amount := min amount cfg.maxBank
          modifyCharacter character ({ · with bank := self.bank ++ [.of item amount] })
          lockerAddCommon cfg quests character item amount

/-- A stack of the locker gets smaller or is gone. -/
def lockerLess (item taken : Int) (bank : List CharacterItem) : List CharacterItem :=
  if amountOf bank item - taken ≤ 0 then (erase item bank).getD bank
  else change item (· - taken) bank

def lockerTake (quests : Quests) (character : CharId) (atVault : Bool) (item : Int)
    (room : Option Int) : Prog Unit := do
  let self ← getCharacter character
  let item := toShort item
  if self.trading then return ()
  else if ¬atVault then return ()
  else
    match self.bank.find? (·.id = item) with
    | none => return ()
    | some it =>
        let taken := toInt (canHoldItem cfg room it.amount)
        discard (addItem cfg.toConfig (check cfg.toConfig) (quests.sub 0) character item taken)
        calculateStats (check cfg.toConfig) (quests.sub 1) character
        modifyCharacter character fun self => { self with bank := lockerLess item taken self.bank }

def lockerBuy (quests : Quests) (character : CharId) : Prog Unit := do
  let self ← getCharacter character
  let cost := toInt (cfg.bankUpgradeBase + self.bankmax * cfg.bankUpgradeStep)
  if self.trading then return ()
  else if self.npcType ≠ .bank then return ()
  else if cfg.maxBankUpgrades ≤ self.bankmax then return ()
  else if hasItem self 1 false < cost then return ()
  else
    modifyCharacter character ({ · with bankmax := self.bankmax + 1 })
    discard (delItem (check cfg.toConfig) quests character 1 cost)

/-- The ingredients of a craft are taken one after the other. -/
def takeIngredients (character : CharId) : Quests → List ShopCraftIngredient → Prog Unit
  | _, [] => return ()
  | quests, ingredient :: ingredients => do
      discard (delItem (check cfg.toConfig) (quests.sub 0) character (toShort ingredient.id)
        ingredient.amount.toNat)
      takeIngredients character (quests.sub 1) ingredients

/-- The loop of `Shop_Create`, which goes on after a match. -/
def craftAll (character : CharId) (item : Int) : Quests → List ShopCraftItem → Prog Unit
  | _, [] => return ()
  | quests, checkitem :: rest => do
      let self ← getCharacter character
      let hasitems := checkitem.ingredients.all fun ingredient =>
        ¬hasItem self (toShort ingredient.id) false < ingredient.amount.toNat
      if checkitem.id = item ∧ hasitems then
        takeIngredients cfg character (quests.sub 0) checkitem.ingredients
        discard (addItem cfg.toConfig (check cfg.toConfig) (quests.sub 1) character
          (toShort checkitem.id) 1)
        craftAll character item (quests.sub 2) rest
      else craftAll character item quests rest

def shopCreate (quests : Quests) (character : CharId) (item : Int) : Prog Unit := do
  let self ← getCharacter character
  if self.trading then return ()
  else if self.npcType = .shop then
    craftAll cfg character (toShort item) quests (cfg.shopCraft self.npc)
  else return ()

def shopBuy (quests : Quests) (character : CharId) (item amount : Int) (heavy : Bool) :
    Prog Unit := do
  let self ← getCharacter character
  let item := toShort item
  let amount := toInt amount
  if self.trading then return ()
  else if amount ≤ 0 ∨ cfg.maxShopBuy < amount then return ()
  else if heavy then return ()
  else if self.npcType ≠ .shop then return ()
  else
    match (cfg.shopTrade self.npc).find? fun checkitem => checkitem.id = item ∧ checkitem.buy ≠ 0 with
    | none => return ()
    | some checkitem =>
        let cost := amount * checkitem.buy
        if cost < 0 ∨ cfg.maxItem < cost then return ()
        else if hasItem self 1 false < cost then return ()
        else
          discard (delItem (check cfg.toConfig) (quests.sub 0) character 1 cost)
          discard (addItem cfg.toConfig (check cfg.toConfig) (quests.sub 1) character item amount)

def shopSell (quests : Quests) (character : CharId) (item amount : Int) : Prog Unit := do
  let self ← getCharacter character
  let item := toShort item
  let amount := toInt amount
  if self.trading then return ()
  else if amount ≤ 0 ∨ cfg.maxItem < amount then return ()
  else if self.npcType ≠ .shop then return ()
  else
    match (cfg.shopTrade self.npc).find? fun checkitem => checkitem.id = item ∧ checkitem.sell ≠ 0 with
    | none => return ()
    | some checkitem =>
        let owed := amount * checkitem.sell
        if owed < 0 ∨ toInt (cfg.maxItem - hasItem self 1 false) < owed then return ()
        else if hasItem self item false < amount then return ()
        else
          discard (delItem (check cfg.toConfig) (quests.sub 0) character item amount)
          discard (addItem cfg.toConfig (check cfg.toConfig) (quests.sub 1) character 1 (toInt owed))

/-- What `character_equip_oneslot` and `character_equip_twoslot` do to a slot. -/
def equipSlot (quests : Quests) (character : CharId) (item : Int) (slot : Nat) : Prog Unit := do
  let self ← getCharacter character
  if self.paperdoll.getD slot 0 ≠ 0 then return ()
  else
    modifyCharacter character ({ · with paperdoll := self.paperdoll.set slot item })
    discard (delItem (check cfg.toConfig) (quests.sub 0) character item 1)
    calculateStats (check cfg.toConfig) (quests.sub 1) character

/-- `Equip`. Whether the character meets the requirements of the item is given. -/
def equip (quests : Quests) (character : CharId) (item : Int) (subloc : UInt8) (meets : Bool) :
    Prog Unit := do
  let self ← getCharacter character
  if hasItem self item false = 0 then return ()
  else if ¬meets then return ()
  else
    match cfg.itemType item with
    | .oneslot slot => equipSlot cfg quests character item slot
    | .twoslot slot1 slot2 =>
        equipSlot cfg quests character item (if subloc = 0 then slot1 else slot2)
    | _ => return ()

def paperdollAdd (quests : Quests) (character : CharId) (itemid : Int) (subloc : UInt8)
    (meets : Bool) : Prog Unit := do
  let self ← getCharacter character
  if self.trading then return ()
  else equip cfg quests character (toShort itemid) subloc meets

def paperdollRemove (quests : Quests) (character : CharId) (itemid : Int) (subloc : UInt8) :
    Prog Unit :=
  if cfg.special itemid = .cursed then return ()
  else discard (unequip cfg.toConfig quests character (toShort itemid) subloc.toNat)

/-- One item is used up, and the quests are told. -/
def useUp (quests : Quests) (character : CharId) (id : Int) (effect : Prog Unit) : Prog Unit := do
  discard (delItem (check cfg.toConfig) (quests.sub 0) character (toShort id) 1)
  effect
  check cfg.toConfig (quests.sub 1) character

/-- A check at every level that is gained. -/
def levelUp (character : CharId) : Quests → Nat → Prog Unit
  | _, 0 => return ()
  | quests, levels + 1 => do
      calculateStats (check cfg.toConfig) (quests.sub 0) character
      levelUp character (quests.sub 1) levels

/-- Whether the item has any effect here, and how many levels are gained, is given. -/
def itemUse (quests : Quests) (character : CharId) (id : Int) (effective : Bool) (levels : Nat) :
    Prog Unit := do
  let self ← getCharacter character
  if self.trading then return ()
  else if hasItem self (toShort id) false = 0 then return ()
  else
    match cfg.itemType id with
    | .teleport scrollmap =>
        let map := if scrollmap = 0 then cfg.spawnMap character else scrollmap
        if effective then
          useUp cfg quests character id
            (warp cfg.toConfig (check cfg.toConfig) (quests.sub 2) character map)
        else return ()
    | .heal | .hairDye =>
        if effective then useUp cfg quests character id (return ()) else return ()
    | .beer | .effectPotion => useUp cfg quests character id (return ())
    | .cureCurse =>
        let cured := self.paperdoll.map fun worn => if cfg.special worn = .cursed then 0 else worn
        if self.paperdoll.any (cfg.special · = .cursed) then
          modifyCharacter character ({ · with paperdoll := cured })
          calculateStats (check cfg.toConfig) (quests.sub 2) character
          useUp cfg quests character id (return ())
        else return ()
    | .expReward =>
        levelUp cfg character (quests.sub 2) levels
        useUp cfg quests character id (return ())
    | .oneslot _ | .twoslot _ _ | .other => return ()

/-- Whether the place can be reached and has room for the item is given. -/
def itemDrop (quests : Quests) (character : CharId) (id amount : Int) (reachable room : Bool) :
    Prog Unit := do
  let self ← getCharacter character
  let amount := min (toInt amount) cfg.maxDrop
  if self.trading then return ()
  else if self.nointeract then return ()
  else if cfg.special id = .lore then return ()
  else if amount ≤ 0 then return ()
  else if ¬reachable then return ()
  else if amount ≤ hasItem self (toShort id) false ∧ self.mapid ≠ cfg.jailMap ∧ room then
    discard (delItem (check cfg.toConfig) quests character (toShort id) amount)
  else return ()

def itemJunk (quests : Quests) (character : CharId) (id amount : Int) : Prog Unit := do
  let self ← getCharacter character
  if self.trading then return ()
  else if toInt amount ≤ 0 then return ()
  else if toInt amount ≤ hasItem self (toShort id) false then
    discard (delItem (check cfg.toConfig) quests character (toShort id) (toInt amount))
  else return ()

/-- The item lies on the map. -/
def itemGet (quests : Quests) (character : CharId) (item : CharacterItem) (reachable : Bool)
    (room : Option Int) : Prog Unit :=
  let taken := toInt (canHoldItem cfg room item.amount)
  if ¬reachable then return ()
  else if 0 < taken then
    discard (addItem cfg.toConfig (check cfg.toConfig) quests character item.id taken)
  else return ()

/-- `Character::ValidName`. -/
def validName (name : String) : Bool :=
  4 ≤ name.length ∧ name.length ≤ 12 ∧ name.toList.all (fun letter => 'a' ≤ letter ∧ letter ≤ 'z') ∧
    name ≠ "server"

inductive MarriageRequestType
  | marriageApproval | divorce | other
  deriving Repr, DecidableEq

/-- The price stands where `HasItem` is told whether to count what is offered
in a trade. -/
def marriageApproval (quests : Quests) (character : CharId) (name : String) : Prog Unit := do
  let self ← getCharacter character
  if self.partner ≠ "" then return ()
  else if hasItem self 1 (cfg.marriagePrice ≠ 0) = 0 then return ()
  else if validName name then
    discard (delItem (check cfg.toConfig) quests character 1 cfg.marriagePrice)
    modifyCharacter character ({ · with fiance := name })
  else return ()

/-- The partner may be in the world as well. -/
def divorce (quests : Quests) (character : CharId) (name : String) (partner : Option CharId) :
    Prog Unit := do
  let self ← getCharacter character
  if self.partner = "" then return ()
  else if hasItem self 1 (cfg.divorcePrice ≠ 0) = 0 then return ()
  else if self.partner ≠ name then return ()
  else
    (match partner with
      | some partner => modifyCharacter partner ({ · with partner := "" })
      | none => return ())
    modifyCharacter character ({ · with partner := "" })
    discard (delItem (check cfg.toConfig) quests character 1 cfg.divorcePrice)

def marriageRequest (quests : Quests) (character : CharId) (requestType : MarriageRequestType)
    (name : String) (partner : Option CharId) : Prog Unit := do
  let self ← getCharacter character
  if self.npcType ≠ .law then return ()
  else
    match requestType with
    | .marriageApproval => marriageApproval cfg quests character name
    | .divorce => divorce cfg quests character name partner
    | .other => return ()

end Etheos.Goods
