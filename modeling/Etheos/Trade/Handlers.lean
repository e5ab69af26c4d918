import Etheos.Character.Character

/-! The handlers of the trade packets, walking, and the runs of a server whose
characters send them in any order. -/
namespace Etheos.Trade

open Characters

variable (cfg : Config)

/-- `Map::GetCharacterPID` on the map of a character. -/
def onMap (w : World) (map : Int) (victim : CharId) : Bool :=
  (w.characters victim).presence.online ∧ ¬(w.characters victim).nowhere ∧
    (w.characters victim).mapid = map

def tradeRequest (character victim : CharId) : Prog Unit := do
  let w ← get
  let self := w.characters character
  if self.trading then return ()
  else if self.nointeract then return ()
  else if self.mapid = cfg.jailMap then return ()
  else if victim = character then return ()
  else if onMap w self.mapid victim ∧ ¬(w.characters victim).trading ∧
      ¬(w.characters victim).nointeract then
    modifyCharacter character ({ · with tradePartner := some victim })
  else return ()

def tradeAccept (character victim : CharId) : Prog Unit := do
  let w ← get
  let self := w.characters character
  if self.trading then return ()
  else if self.nointeract then return ()
  else if self.mapid = cfg.jailMap then return ()
  else if onMap w self.mapid victim ∧ (w.characters victim).mapid = self.mapid ∧
      (w.characters victim).tradePartner = some character ∧
      ¬(w.characters victim).trading ∧ ¬(w.characters victim).nointeract then
    modifyCharacter character
      ({ · with tradePartner := some victim, trading := true, tradeAgree := false })
    modifyCharacter victim ({ · with trading := true, tradeAgree := false })
    note (.opened character victim)
  else return ()

/-- What `Trade_Add` and `Trade_Remove` do when the offer has been changed. -/
def offerChanged (character : CharId) : Prog Unit := do
  let p ← tradePartner character
  note (.changed character p)
  modifyCharacter character ({ · with tradeAgree := false })
  modifyCharacter (← tradePartner character) ({ · with tradeAgree := false })

def tradeRemove (quests : Quests) (character : CharId) (itemid : Int) : Prog Unit := do
  let self ← getCharacter character
  if ¬self.trading then return ()
  else if self.tradeInventory.length > 5 then return ()
  else
    let removed ← delTradeItem cfg quests character (toShort itemid)
    if removed then offerChanged character else return ()

def tradeAdd (quests : Quests) (character : CharId) (itemid amount : Int) : Prog Unit := do
  let self ← getCharacter character
  if ¬self.trading then return ()
  else if cfg.special itemid = .lore then return ()
  else if ¬self.tradeInventory.any (·.id = itemid) ∧ self.tradeInventory.length ≥ 10 then
    return ()
  else
    let added ← addTradeItem cfg quests character (toShort itemid) (toInt amount)
    if added then offerChanged character else return ()

/-- One of the two loops of the swap, over the offer of `owner`. -/
def swapOffer (owner : CharId) (giver taker : Prog CharId) :
    Quests → List CharacterItem → Prog Unit
  | _, [] => return ()
  | quests, item :: items => do
      discard (delItem (check cfg) (quests.sub 0) (← giver) item.id item.amount)
      discard (addItem cfg (check cfg) (quests.sub 1) (← taker) item.id item.amount)
      let self ← getCharacter owner
      -- a quest changes an offer only by a warp, which clears it under the loop
      if self.tradeInventory = [] then throw .danglingIterator
      else swapOffer owner giver taker (quests.sub 2) items

/-- The end of the swap. The quests of both sides are checked between the
moments at which the one and the other leave the trade. -/
def swapEnd (quests : Quests) (character : CharId) : Prog Unit := do
  let p ← tradePartner character
  modifyCharacter character
    ({ · with trading := false, tradeInventory := [], tradeAgree := false })
  note (.closed character p)
  check cfg (quests.sub 2) character
  check cfg (quests.sub 3) (← tradePartner character)
  modifyCharacter (← tradePartner character) ({ · with trading := false, tradeInventory := [] })
  modifyCharacter character ({ · with tradeAgree := false })
  modifyCharacter (← tradePartner character) ({ · with tradePartner := none })
  modifyCharacter character ({ · with tradePartner := none })

/-- The branch of `Trade_Agree` in which the partner has agreed before. -/
def tradeSwap (quests : Quests) (character : CharId) : Prog Unit := do
  let p ← tradePartner character
  note (.swapped character p)
  let partner ← getCharacter p
  swapOffer cfg p (tradePartner character) (return character) (quests.sub 0) partner.tradeInventory
  let self ← getCharacter character
  swapOffer cfg character (return character) (tradePartner character) (quests.sub 1)
    self.tradeInventory
  swapEnd cfg quests character

def tradeAgree (quests : Quests) (character : CharId) (agree : UInt8) : Prog Unit := do
  let w ← get
  let self := w.characters character
  if ¬self.trading then return ()
  else
    modifyCharacter character ({ · with tradeAgree := agree ≠ 0 })
    note (.agreed character (self.tradePartner.getD character) (agree ≠ 0))
    if agree ≠ 0 then
      if self.tradeInventory = [] then return ()
      else
        let partner ← getCharacter (← tradePartner character)
        if partner.tradeAgree then tradeSwap cfg quests character else return ()
    else
      discard (tradePartner character)

def tradeClose (quests : Quests) (character : CharId) : Prog Unit := do
  let self ← getCharacter character
  if ¬self.trading then return ()
  else closeTrade (check cfg) quests character

/-- What a walk comes upon. -/
inductive Tile
  | blocked
  | free
  /-- Spikes that take the last hit points. -/
  | deadly
  | warp (map : Int)
  deriving Repr, DecidableEq

/-- `Map::Walk`. -/
def walk (quests : Quests) (character : CharId) : Tile → Prog Unit
  | .blocked => return ()
  | .free => check cfg quests character
  | .deadly => do
      check cfg (quests.sub 0) character
      deathRespawn cfg (quests.sub 1) character
  | .warp map => warp cfg (check cfg) quests character map

/-- The difference of two times of the day, in hundredths of a second. The
value -1 is no time. -/
def timestampSub (ts b : Int) : Int :=
  if ts = -1 then b else if b = -1 then ts else if b > ts then ts - b + 8640000 else ts - b

def walkCommon (quests : Quests) (character : CharId) (direction : UInt8) (time : Int)
    (tile : Tile) : Prog Unit := do
  let self ← getCharacter character
  let timestamp := time.tmod 8640000
  if cfg.enforceTimestamps ∧ timestampSub timestamp self.timestamp < 36 then return ()
  else
    modifyCharacter character ({ · with timestamp := timestamp })
    if self.sitting then return ()
    else if direction ≤ 3 then
      modifyCharacter character ({ · with npc := 0, npcType := .npc })
      leaveTrade (check cfg) (quests.sub 0) character
      walk cfg (quests.sub 1) character tile
    else return ()

/-- `Character::Logout`. -/
def characterLogout (quests : Quests) (character : CharId) : Prog Unit := do
  leaveTrade (check cfg) quests character
  modifyCharacter character ({ · with presence := .gone })

/-- `World::Login`, with the character as it is in the database. -/
def worldLogin (quests : Quests) (character : CharId) (saved : Character) : Prog Unit := do
  modifyCharacter character fun _ =>
    { saved with
      presence := .playing, nowhere := false, timestamp := -1, npc := 0, npcType := .npc
      inventory := CharacterItem.itemUnserialize saved.inventory
      bank := CharacterItem.itemUnserialize saved.bank
      trading := false, tradePartner := none, tradeAgree := false, tradeInventory := [] }
  check cfg quests character

/-- One thing that the server does. `by` is the character whose packet it is
about, where there is one. -/
inductive Event
  | request (c victim : CharId)
  | accept (c victim : CharId)
  | add (c : CharId) (itemid amount : Int) (quests : Quests)
  | remove (c : CharId) (itemid : Int) (quests : Quests)
  | agree (c : CharId) (agree : UInt8) (quests : Quests)
  | close (c : CharId) (quests : Quests)
  | walk (c : CharId) (direction : UInt8) (time : Int) (tile : Tile) (quests : Quests)
  | warp (sender : Option CharId) (c : CharId) (map : Int) (quests : Quests)
  | login (c : CharId) (saved : Character) (quests : Quests)
  | logout (sender : Option CharId) (c : CharId) (quests : Quests)

namespace Event

/-- The character whose packet is handled. A warp or a logout may also come
from a timer or from the end of a connection. -/
def sender : Event → Option CharId
  | .request c _ | .accept c _ | .add c _ _ _ | .remove c _ _ | .agree c _ _ | .close c _ => some c
  | .walk c _ _ _ _ | .login c _ _ => some c
  | .warp sender _ _ _ | .logout sender _ _ => sender

def handler : Event → Prog Unit
  | .request c victim => tradeRequest cfg c victim
  | .accept c victim => tradeAccept cfg c victim
  | .add c itemid amount quests => tradeAdd cfg quests c itemid amount
  | .remove c itemid quests => tradeRemove cfg quests c itemid
  | .agree c flag quests => tradeAgree cfg quests c flag
  | .close c quests => tradeClose cfg quests c
  | .walk c direction time tile quests => walkCommon cfg quests c direction time tile
  | .warp _ c map quests => Characters.warp cfg (check cfg) quests c map
  | .login c saved quests => worldLogin cfg quests c saved
  | .logout _ c quests => characterLogout cfg quests c

def enabled (w : World) : Event → Bool
  | .login c _ _ => (w.characters c).presence = .absent
  | .warp sender c _ _ | .logout sender c _ =>
      (w.characters c).presence.online ∧ ∀ s ∈ sender, (w.characters s).presence = .playing
  | .request c _ | .accept c _ | .add c _ _ _ | .remove c _ _ | .agree c _ _ | .close c _
  | .walk c _ _ _ _ => (w.characters c).presence = .playing

/-- An exception on the way out of a destructor ends the program. -/
def inDestructor : Event → Bool
  | .logout none _ _ => true
  | _ => false

end Event

/-- A server that failed has ended, or has left what the language defines. The
world is the one that the last handler left behind. -/
inductive Server
  | running (w : World)
  | failed (fault : Fault) (w : World)

def Server.world : Server → World
  | .running w | .failed _ w => w

/-- An exception closes the client whose packet is handled. -/
def closeClient (w : World) : Option CharId → World
  | none => w
  | some c => w.modifyCharacter c ({ · with presence := .closed })

def finish (event : Event) : EStateM.Result Fault World Unit → Server
  | .ok _ w => .running w
  | .error .runtimeError w =>
      if event.inDestructor then .failed .runtimeError w
      else .running (closeClient w event.sender)
  | .error fault w => .failed fault w

def step : Server → Event → Option Server
  | .failed _ _, _ => none
  | .running w, event =>
      if event.enabled w then some (finish event (event.handler cfg w)) else none

/-- Nobody has anything to do with a trade yet. -/
def Initial (w : World) : Prop :=
  w.log = [] ∧ ∀ c, (w.characters c).trading = false ∧ (w.characters c).tradePartner = none ∧
    (w.characters c).tradeAgree = false ∧ (w.characters c).tradeInventory = []

end Etheos.Trade
