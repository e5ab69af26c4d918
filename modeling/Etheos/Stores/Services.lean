import Etheos.Quest.Syntax
import Etheos.Stores.Carried

/-! What can be bought for gold, apart from goods. -/
namespace Etheos.Stores

open Characters CharacterItem General
open EOPlus (lowercase)

/-- `NPC_Learn_Skill`. -/
structure LearnSkill where
  id : Int
  cost : Int
  cost_isInt : IsInt cost
  levelreq : Int
  classreq : Int
  skillreq : List Int
  strreq : Int
  intreq : Int
  wisreq : Int
  agireq : Int
  conreq : Int
  chareq : Int

/-- What is granted for gold. -/
inductive Grant
  | approval (name : String)
  | divorce
  | hair (style color : Int)
  | locker
  | sleep
  | song (player : String) (now : Int)
  | skill (id : Int)
  | deposit (gold : Int)
  deriving DecidableEq

structure Jukebox where
  player : String
  protect : Int
  deriving DecidableEq

/-- What services depend on or change, and quest checks do not. The program does
not keep the list `granted`. -/
structure Desk where
  bankmax : Int
  /-- The jukebox of each map. -/
  jukeboxes : Int → Jukebox
  /-- The bank of the guild that the character is in. -/
  guildBank : Option Int
  /-- The partners of the characters that are online. -/
  partners : String → Option String
  /-- The skills that are taught by the one spoken to. -/
  skillLearn : List LearnSkill
  /-- Where one wakes up in the inn. -/
  home : Option (Int × Int × Int)
  granted : List Grant

structure ServiceConfig extends Config where
  marriagePrice : Int
  divorcePrice : Int
  maxHairStyle : Int
  maxHairColor : Int
  barberBase : Int
  barberStep : Int
  bankUpgradeBase : Int
  bankUpgradeStep : Int
  maxBankUpgrades : Int
  innSleepCostBase : Int
  innSleepCostPerHP : Int
  innSleepCostPerTP : Int
  jukeboxSongs : Int
  jukeboxPrice : Int
  jukeboxTimer : Int
  esfSize : Nat
  guildBankMax : Int
  guildMinDeposit : Int

def validName (name : String) : Bool :=
  if name.toList.length < 4 then false
  else if 12 < name.toList.length then false
  else if name.toList.any fun c => c < 'a' ∨ 'z' < c then false
  else name ≠ "server"

/-- A conversion to an `unsigned int`. -/
def toUInt (n : Int) : Int := n % 2 ^ 32

namespace State

def become (s : State Desk) (f : Traits → Traits) : State Desk :=
  { s with body := { s.body with traits := f s.body.traits } }

end State

namespace Grant

/-- The fields that are set when something is granted. -/
def write (cfg : ServiceConfig) (s : State Desk) : Grant → State Desk
  | .approval name => s.become ({ · with fiance := name })
  | .divorce => s.become ({ · with partner := "" })
  | .hair style color => s.become ({ · with hairstyle := style, haircolor := color })
  | .locker => s.put { s.store with bankmax := s.store.bankmax + 1 }
  | .sleep => s.become fun traits => { traits with hp := traits.maxhp, tp := traits.maxtp }
  | .song player now =>
      let jukebox : Jukebox := ⟨player, now + cfg.jukeboxTimer⟩
      s.put { s.store with jukeboxes := Function.update s.store.jukeboxes s.body.mapid jukebox }
  | .skill spell => s.become fun traits => { traits with spells := traits.spells ++ [spell] }
  | .deposit gold =>
      let deposited (bank : Int) : Int := min (toInt (bank + gold)) cfg.guildBankMax
      s.put { s.store with guildBank := s.store.guildBank.map deposited }

def give (cfg : ServiceConfig) (grant : Grant) (s : State Desk) : State Desk :=
  let s := grant.write cfg s
  s.put { s.store with granted := s.store.granted ++ [grant] }

end Grant

section Handlers

variable (cfg : ServiceConfig) (quests : Checks)

def marriageApproval (name : String) : Prog Desk Unit := do
  let s ← get
  let self := s.body
  if self.traits.partner ≠ "" then return ()
  else
    let price := toInt cfg.marriagePrice
    -- the price stands where a flag is expected, and no amount is compared
    if hasItem self 1 (price ≠ 0) = 0 then return ()
    else if validName name then
      discard (delItem quests 1 price)
      modify ((Grant.approval name).give cfg)
    else return ()

/-- The query for a partner who is not online may throw. -/
def divorce (name : String) (queryFails : Bool) : Prog Desk Unit := do
  let s ← get
  let self := s.body
  if self.traits.partner = "" then return ()
  else
    let price := toInt cfg.divorcePrice
    if hasItem self 1 (price ≠ 0) = 0 then return ()
    else if self.traits.partner ≠ name then return ()
    else
      match s.store.partners name with
      | some _ =>
          modify fun s =>
            s.put { s.store with partners := Function.update s.store.partners name (some "") }
      | none => if queryFails then throw () else pure ()
      modify (Grant.divorce.give cfg)
      discard (delItem quests 1 price)

def marriageRequest (requestType : Int) (name : String) (queryFails : Bool) : Prog Desk Unit := do
  let s ← get
  if s.body.npcType ≠ .law then return ()
  else if requestType = 1 then marriageApproval cfg quests (lowercase name)
  else if requestType = 2 then divorce cfg quests (lowercase name) queryFails
  else return ()

def barberPrice (self : Body) : Int :=
  toInt (cfg.barberBase + max 1 self.traits.level * cfg.barberStep)

def barberBuy (style color : Int) : Prog Desk Unit := do
  let s ← get
  let self := s.body
  if self.trading then return ()
  else if cfg.maxHairStyle < style ∨ cfg.maxHairColor < color then return ()
  else
    let price := barberPrice cfg self
    if hasItem self 1 false < price then return ()
    else if self.npcType = .barber then
      discard (delItem quests 1 price)
      modify ((Grant.hair style color).give cfg)
    else return ()

def upgradeCost (bankmax : Int) : Int := toInt (cfg.bankUpgradeBase + bankmax * cfg.bankUpgradeStep)

def lockerBuy : Prog Desk Unit := do
  let s ← get
  let self := s.body
  if self.trading then return ()
  else if self.npcType = .bank then
    let cost := upgradeCost cfg s.store.bankmax
    if cfg.maxBankUpgrades ≤ s.store.bankmax then return ()
    else if hasItem self 1 false < cost then return ()
    else
      modify (Grant.locker.give cfg)
      discard (delItem quests 1 cost)
  else return ()

/-- The cost is an `unsigned int`. -/
def sleepCost (self : Body) : Int :=
  toUInt (cfg.innSleepCostBase +
    toUInt (self.traits.maxhp - self.traits.hp) * cfg.innSleepCostPerHP +
    toUInt (self.traits.maxtp - self.traits.tp) * cfg.innSleepCostPerTP)

/-- Where a trade is closed and where the map is entered, quests are checked. -/
def warp (map x y : Int) : Prog Desk Unit := do
  let s ← get
  modify fun s =>
    { s with
      body :=
        { s.body with
          mapid := map
          x := x
          y := y
          npcType := .npc
          trading := false
          tradeInventory := if s.body.trading then [] else s.body.tradeInventory
          traits := { s.body.traits with jukeboxOpen := false } } }
  if s.body.trading then calculateStats quests else pure ()
  calculateStats quests

def citizenAccept : Prog Desk Unit := do
  let s ← get
  let self := s.body
  if self.npcType = .inn then
    if sleepCost cfg self ≤ toUInt (hasItem self 1 false) then
      discard (delItem quests 1 (toInt (sleepCost cfg self)))
      modify (Grant.sleep.give cfg)
      match s.store.home with
      | some (map, x, y) => warp quests map x y
      | none => pure ()
      modify fun s => { s with body := { s.body with npcType := .npc } }
    else return ()
  else return ()

def jukeboxMsg (player : String) (now track : Int) : Prog Desk Unit := do
  let s ← get
  let self := s.body
  let track := toShort track
  if self.trading then return ()
  else if self.traits.jukeboxOpen = false ∨ now < (s.store.jukeboxes self.mapid).protect ∨
      track < 0 ∨ cfg.jukeboxSongs < track ∨ hasItem self 1 false < toInt cfg.jukeboxPrice then
    return ()
  else
    discard (delItem quests 1 (toInt cfg.jukeboxPrice))
    modify ((Grant.song player now).give cfg)

/-- `AddSpell`, with its result ignored. -/
def addSpell (spell : Int) : Prog Desk Unit := do
  let s ← get
  if spell ≤ 0 ∨ cfg.esfSize ≤ spell then return ()
  else if spell ∈ s.body.traits.spells then return ()
  else
    modify ((Grant.skill spell).give cfg)
    calculateStats quests

def statSkillTake (spellId : Int) : Prog Desk Unit := do
  let s ← get
  let self := s.body
  let spellId := toShort spellId
  if spellId ∈ self.traits.spells then return ()
  else if self.npcType = .skills then
    match s.store.skillLearn.find? (·.id = spellId) with
    | none => return ()
    | some spell =>
        if self.traits.level < spell.levelreq ∨ hasItem self 1 false < spell.cost ∨
            self.traits.displayStr < spell.strreq ∨ self.traits.displayIntl < spell.intreq ∨
            self.traits.displayWis < spell.wisreq ∨ self.traits.displayAgi < spell.agireq ∨
            self.traits.displayCon < spell.conreq ∨ self.traits.displayCha < spell.chareq then
          return ()
        else if spell.classreq ≠ 0 ∧ self.traits.clas ≠ spell.classreq then return ()
        else if spell.skillreq.any fun req => req ≠ 0 ∧ req ∉ self.traits.spells then return ()
        else
          discard (delItem quests 1 spell.cost)
          addSpell cfg quests spellId
  else return ()

/-- `AddBank`. -/
def addBank (gold : Int) : Prog Desk Unit := do
  let s ← get
  match s.store.guildBank with
  | none => return ()
  | some bank =>
      if 0 < gold ∧ 0 ≤ toInt (bank + gold) then modify ((Grant.deposit gold).give cfg)
      else return ()

/-- What is paid in of the gold that is offered. -/
def guildDeposit (bank gold : Int) : Int := min gold (toInt (cfg.guildBankMax - bank))

def guildBuy (gold : Int) : Prog Desk Unit := do
  let s ← get
  let self := s.body
  if self.trading then return ()
  else if self.nointeract then return ()
  else
    let gold := toInt gold
    if gold < 0 then return ()
    else if self.npcType = .guild then
      match s.store.guildBank with
      | none => return ()
      | some bank =>
          if toInt (cfg.guildBankMax - bank) ≤ 0 then return ()
          else
            let gold := guildDeposit cfg bank gold
            if cfg.guildMinDeposit ≤ gold ∧ gold ≤ hasItem self 1 false then
              discard (delItem quests 1 gold)
              addBank cfg gold
            else return ()
    else return ()

end Handlers

/-- The gold that is not offered in a trade. -/
def available (s : State Desk) : Int := hasItem s.body 1 false

/-- Either nothing at all changes, or what is asked for is granted, there was enough
gold, and the price of it is gone. -/
def Fair (p : Int) (grant : Grant) (s s' : State Desk) : Prop :=
  s' = s ∨
    s'.store.granted = s.store.granted ++ [grant] ∧ p ≤ available s ∧ s'.own 1 = s.own 1 - p

/-- The price is not below zero and there is enough gold. The last part says more
only where an offer in a trade is negative. -/
def Affords (s : State Desk) (p : Int) : Prop :=
  0 ≤ p ∧ p ≤ available s ∧ (0 < p → p ≤ amountOf s.body.inventory 1)

section Sale

variable {cfg : ServiceConfig} {quests : Checks} {s : State Desk} {p : Int} {grant : Grant}

@[simp] theorem Grant.own_give (s : State Desk) (id : Int) : (grant.give cfg s).own id = s.own id := by
  cases grant with
  | _ => rfl

@[simp] theorem Grant.inventory_give (s : State Desk) :
    (grant.give cfg s).body.inventory = s.body.inventory := by
  cases grant with
  | _ => rfl

@[simp] theorem Grant.granted_give (s : State Desk) :
    (grant.give cfg s).store.granted = s.store.granted ++ [grant] := by
  cases grant with
  | _ => rfl

theorem Affords.isInt (h : Affords s p) : toInt p = p := by
  obtain ⟨hNonneg, -, hHeld⟩ := h
  have hInt := isInt_amountOf s.body.inventory 1
  unfold IsInt at hInt
  exact IsInt.toInt_eq ⟨by omega, by omega⟩

/-- Nothing is charged only where the price is zero. -/
theorem affords_of_free (h : surrendered s.body.inventory 1 (toInt p) = none) :
    Affords s p ↔ p = 0 ∧ 0 ≤ available s := by
  constructor
  · intro hAffords
    have hInt := hAffords.isInt
    obtain ⟨hNonneg, hAvailable, hHeld⟩ := hAffords
    by_cases hPos : 0 < p
    · obtain ⟨inventory, hTaken⟩ := surrendered_isSome hPos (hHeld hPos)
      rw [hInt, hTaken] at h
      cases h
    · omega
  · intro ⟨hZero, hAvailable⟩
    exact ⟨by omega, by omega, by omega⟩

/-- The price is paid where as much is carried. -/
theorem affords_of_charged {inventory : List CharacterItem}
    (h : surrendered s.body.inventory 1 (toInt p) = some inventory) :
    Affords s p ↔ p ≤ available s ∧ total 1 inventory = total 1 s.body.inventory - p := by
  have hPos := surrendered_pos h
  have hLeast := surrendered_least h
  have hHeldInt := isInt_amountOf s.body.inventory 1
  constructor
  · intro hAffords
    rw [hAffords.isInt] at hLeast hPos
    have hHeld := hAffords.2.2 hPos
    exact ⟨hAffords.2.1, by omega⟩
  · intro ⟨hAvailable, hTotal⟩
    have hPrice := isInt_toInt p
    have hInt : toInt p = p := by
      unfold IsInt at hHeldInt hPrice
      exact IsInt.toInt_eq ⟨by omega, by omega⟩
    exact ⟨by omega, hAvailable, by omega⟩

/-- A service is handed out after the payment where `Deliverable` holds, and else
nothing happens. -/
structure Delivers (deliver : Prog Desk Unit) (grant : Grant) (Deliverable : State Desk → Prop) :
    Prop where
  done : ∀ s, Deliverable s → (final deliver s).own 1 = s.own 1 ∧
    (final deliver s).store.granted = s.store.granted ++ [grant]
  undone : ∀ s, ¬Deliverable s → final deliver s = s

/-- The quest check behind the payment does not throw, and the service can still be
handed out after it. -/
def Sold (quests : Checks) (Deliverable : State Desk → Prop) (s : State Desk) (p : Int) : Prop :=
  match surrendered s.body.inventory 1 (toInt p) with
  | none => Deliverable s → Affords s p
  | some inventory => Affords s p ∧ ¬(s.carry inventory).Throws quests ∧
      Deliverable ((s.carry inventory).checked quests)

/-- A service that is paid for in advance. -/
theorem sale_fair_iff {deliver : Prog Desk Unit} {Deliverable : State Desk → Prop} {charged : Int}
    (hCharged : toInt p = charged) (h : Delivers deliver grant Deliverable) :
    Fair p grant s (final (discard (delItem quests 1 charged) >>= fun _ => deliver) s) ↔
      Sold quests Deliverable s p := by
  subst hCharged
  unfold Sold Fair
  rw [delItem_final]
  cases hSurrendered : surrendered s.body.inventory 1 (toInt p) with
  | none =>
      dsimp only
      by_cases hDeliverable : Deliverable s
      · obtain ⟨hOwn, hGranted⟩ := h.done s hDeliverable
        rw [imp_iff_right hDeliverable, affords_of_free hSurrendered, hOwn, hGranted]
        constructor
        · rintro (hSame | ⟨-, hEnough, hPaid⟩)
          · rw [hSame] at hGranted
            simp at hGranted
          · exact ⟨by omega, by omega⟩
        · intro ⟨hZero, hEnough⟩
          exact .inr ⟨rfl, by omega, by omega⟩
      · exact iff_of_true (.inl (h.undone s hDeliverable)) fun hYes => absurd hYes hDeliverable
  | some inventory =>
      dsimp only
      have hChecks : ((s.carry inventory).checked quests).checks ≠ s.checks := Nat.succ_ne_self _
      have hLog : ((s.carry inventory).checked quests).store.granted = s.store.granted := rfl
      have hPaid : ((s.carry inventory).checked quests).own 1 =
          s.own 1 + total 1 inventory - total 1 s.body.inventory := by
        rw [State.own_checked, State.own_carry]
      generalize hAfter : (s.carry inventory).checked quests = after at *
      have hUnfair : ¬(after = s ∨ after.store.granted = s.store.granted ++ [grant] ∧
          p ≤ available s ∧ after.own 1 = s.own 1 - p) := by
        rintro (hSame | ⟨hGranted, -⟩)
        · exact hChecks (congrArg State.checks hSame)
        · rw [hLog] at hGranted
          simp at hGranted
      split
      case isTrue hThrows => exact iff_of_false hUnfair fun hSold => hSold.2.1 hThrows
      case isFalse hQuiet =>
        by_cases hDeliverable : Deliverable after
        · obtain ⟨hOwn, hGranted⟩ := h.done after hDeliverable
          rw [hOwn, hGranted, hLog, hPaid, affords_of_charged hSurrendered]
          constructor
          · rintro (hSame | ⟨-, hEnough, hTotal⟩)
            · rw [hSame] at hGranted
              rw [hLog] at hGranted
              simp at hGranted
            · exact ⟨⟨hEnough, by omega⟩, hQuiet, hDeliverable⟩
          · intro ⟨⟨hEnough, hTotal⟩, _, _⟩
            exact .inr ⟨rfl, hEnough, by omega⟩
        · rw [h.undone after hDeliverable]
          exact iff_of_false hUnfair fun hSold => hDeliverable hSold.2.2

/-- A service that is paid for afterwards. -/
theorem late_fair_iff {d : Desk} {charged : Int} (hCharged : toInt p = charged)
    (hLog : d.granted = s.store.granted) :
    Fair p grant s (final (modify (grant.give cfg) >>= fun _ => discard (delItem quests 1 charged))
        (s.put d)) ↔
      Affords s p := by
  subst hCharged
  rw [final_modify_bind, delItem_last, Grant.inventory_give, State.body_put]
  unfold Fair
  have hGranted : (grant.give cfg (s.put d)).store.granted = s.store.granted ++ [grant] := by
    rw [Grant.granted_give, State.store_put, hLog]
  have hOwn : (grant.give cfg (s.put d)).own 1 = s.own 1 := by
    rw [Grant.own_give, State.own_put]
  cases hSurrendered : surrendered s.body.inventory 1 (toInt p) with
  | none =>
      dsimp only
      rw [affords_of_free hSurrendered, hGranted, hOwn]
      constructor
      · rintro (hSame | ⟨-, hEnough, hPaid⟩)
        · rw [hSame] at hGranted
          simp at hGranted
        · exact ⟨by omega, by omega⟩
      · intro ⟨hZero, hEnough⟩
        exact .inr ⟨rfl, by omega, by omega⟩
  | some inventory =>
      dsimp only
      rw [affords_of_charged hSurrendered, State.store_checked, State.store_carry, hGranted,
        State.own_checked, State.own_carry, hOwn, Grant.inventory_give, State.body_put]
      constructor
      · rintro (hSame | ⟨-, hEnough, hPaid⟩)
        · have hLonger := congrArg (fun s : State Desk => s.store.granted) hSame
          rw [State.store_checked, State.store_carry, hGranted] at hLonger
          simp at hLonger
        · exact ⟨hEnough, by omega⟩
      · intro ⟨hEnough, hTotal⟩
        exact .inr ⟨rfl, hEnough, by omega⟩

/-- What is granted at once. -/
theorem delivers_give : Delivers (modify (grant.give cfg)) grant fun _ => True :=
  ⟨fun s _ => ⟨Grant.own_give s 1, Grant.granted_give s⟩, fun _ h => absurd trivial h⟩

end Sale

section Marriage

variable {cfg : ServiceConfig} {quests : Checks} {s : State Desk} {name : String} {queryFails : Bool}

/-- The checks in front of an approval are passed. -/
def Approvable (cfg : ServiceConfig) (s : State Desk) (name : String) : Prop :=
  s.body.traits.partner = "" ∧ hasItem s.body 1 (toInt cfg.marriagePrice ≠ 0) ≠ 0 ∧
    validName name = true

theorem marriageApproval_fair_iff :
    Fair (toInt cfg.marriagePrice) (.approval name) s (final (marriageApproval cfg quests name) s) ↔
      (Approvable cfg s name → Sold quests (fun _ => True) s (toInt cfg.marriagePrice)) := by
  unfold marriageApproval Approvable
  rw [final_read]
  dsimp only
  split
  case isTrue hPartner => exact iff_of_true (.inl rfl) fun h => absurd h.1 hPartner
  case isFalse hSingle =>
    split
    case isTrue hPoor => exact iff_of_true (.inl rfl) fun h => absurd hPoor h.2.1
    case isFalse hRich =>
      split
      case isTrue hName =>
        rw [imp_iff_right ⟨not_not.mp hSingle, hRich, hName⟩]
        exact sale_fair_iff (isInt_toInt _).toInt_eq delivers_give
      case isFalse hName => exact iff_of_true (.inl rfl) fun h => absurd h.2.2 hName

/-- The checks in front of a divorce are passed. -/
def Divorceable (cfg : ServiceConfig) (s : State Desk) (name : String) (queryFails : Bool) : Prop :=
  s.body.traits.partner ≠ "" ∧ hasItem s.body 1 (toInt cfg.divorcePrice ≠ 0) ≠ 0 ∧
    s.body.traits.partner = name ∧ (s.store.partners name = none → queryFails = false)

theorem divorce_fair_iff :
    Fair (toInt cfg.divorcePrice) .divorce s (final (divorce cfg quests name queryFails) s) ↔
      (Divorceable cfg s name queryFails → Affords s (toInt cfg.divorcePrice)) := by
  unfold divorce Divorceable
  rw [final_read]
  dsimp only
  split
  case isTrue hSingle => exact iff_of_true (.inl rfl) fun h => absurd hSingle h.1
  case isFalse hPartner =>
    split
    case isTrue hPoor => exact iff_of_true (.inl rfl) fun h => absurd hPoor h.2.1
    case isFalse hRich =>
      split
      case isTrue hOther => exact iff_of_true (.inl rfl) fun h => absurd h.2.2.1 hOther
      case isFalse hName =>
        cases hOnline : s.store.partners name with
        | some partner =>
            rw [imp_iff_right ⟨hPartner, hRich, not_not.mp hName, fun hNone => by cases hNone⟩]
            exact late_fair_iff (d := { s.store with partners := _ }) (isInt_toInt _).toInt_eq rfl
        | none =>
            cases hQuery : queryFails with
            | true => exact iff_of_true (.inl rfl) fun h => absurd (h.2.2.2 rfl) (by simp)
            | false =>
                rw [imp_iff_right ⟨hPartner, hRich, not_not.mp hName, fun _ => rfl⟩]
                exact late_fair_iff (d := s.store) (isInt_toInt _).toInt_eq rfl

end Marriage

section Goods

variable {cfg : ServiceConfig} {quests : Checks} {s : State Desk}

/-- The checks of `Barber_Buy` are passed. -/
def Cuts (cfg : ServiceConfig) (s : State Desk) (style color : Int) : Prop :=
  s.body.trading = false ∧ (style ≤ cfg.maxHairStyle ∧ color ≤ cfg.maxHairColor) ∧
    barberPrice cfg s.body ≤ available s ∧ s.body.npcType = .barber

theorem barberBuy_fair_iff (style color : Int) :
    Fair (barberPrice cfg s.body) (.hair style color) s (final (barberBuy cfg quests style color) s) ↔
      (Cuts cfg s style color → Sold quests (fun _ => True) s (barberPrice cfg s.body)) := by
  unfold barberBuy Cuts available
  rw [final_read]
  dsimp only
  split
  case isTrue hTrading => exact iff_of_true (.inl rfl) fun h => absurd h.1 (by simp [hTrading])
  case isFalse hTrading =>
    split
    case isTrue hNone => exact iff_of_true (.inl rfl) fun h => absurd h.2.1 (by omega)
    case isFalse hKnown =>
      split
      case isTrue hPoor => exact iff_of_true (.inl rfl) fun h => absurd h.2.2.1 (by omega)
      case isFalse hRich =>
        split
        case isTrue hBarber =>
          rw [imp_iff_right ⟨eq_false_of_ne_true hTrading, by omega, by omega, hBarber⟩]
          exact sale_fair_iff (isInt_toInt _).toInt_eq delivers_give
        case isFalse hBarber => exact iff_of_true (.inl rfl) fun h => absurd h.2.2.2 hBarber

/-- The checks of `Locker_Buy` are passed. -/
def Upgrades (cfg : ServiceConfig) (s : State Desk) : Prop :=
  s.body.trading = false ∧ s.body.npcType = .bank ∧ s.store.bankmax < cfg.maxBankUpgrades ∧
    upgradeCost cfg s.store.bankmax ≤ available s

theorem lockerBuy_fair_iff :
    Fair (upgradeCost cfg s.store.bankmax) .locker s (final (lockerBuy cfg quests) s) ↔
      (Upgrades cfg s → Affords s (upgradeCost cfg s.store.bankmax)) := by
  unfold lockerBuy Upgrades available
  rw [final_read]
  dsimp only
  split
  case isTrue hTrading => exact iff_of_true (.inl rfl) fun h => absurd h.1 (by simp [hTrading])
  case isFalse hTrading =>
    split
    case isTrue hBank =>
      split
      case isTrue hMost => exact iff_of_true (.inl rfl) fun h => absurd h.2.2.1 (by omega)
      case isFalse hLess =>
        split
        case isTrue hPoor => exact iff_of_true (.inl rfl) fun h => absurd h.2.2.2 (by omega)
        case isFalse hRich =>
          rw [imp_iff_right ⟨eq_false_of_ne_true hTrading, hBank, by omega, by omega⟩]
          exact late_fair_iff (d := s.store) (isInt_toInt _).toInt_eq rfl
    case isFalse hBank => exact iff_of_true (.inl rfl) fun h => absurd h.2.1 hBank

/-- The checks of `Jukebox_Msg` are passed. -/
def Plays (cfg : ServiceConfig) (s : State Desk) (now track : Int) : Prop :=
  s.body.trading = false ∧ s.body.traits.jukeboxOpen = true ∧
    (s.store.jukeboxes s.body.mapid).protect ≤ now ∧
      (0 ≤ toShort track ∧ toShort track ≤ cfg.jukeboxSongs) ∧ toInt cfg.jukeboxPrice ≤ available s

theorem jukeboxMsg_fair_iff (player : String) (now track : Int) :
    Fair (toInt cfg.jukeboxPrice) (.song player now) s (final (jukeboxMsg cfg quests player now track) s) ↔
      (Plays cfg s now track → Sold quests (fun _ => True) s (toInt cfg.jukeboxPrice)) := by
  unfold jukeboxMsg Plays available
  rw [final_read]
  dsimp only
  split
  case isTrue hTrading => exact iff_of_true (.inl rfl) fun h => absurd h.1 (by simp [hTrading])
  case isFalse hTrading =>
    split
    case isTrue hNone =>
      refine iff_of_true (.inl rfl) fun ⟨_, hOpen, hFree, hTrack, hRich⟩ => ?_
      rw [hOpen] at hNone
      simp only [Bool.true_eq_false, false_or] at hNone
      omega
    case isFalse hAll =>
      simp only [not_or, Bool.not_eq_false, Int.not_lt] at hAll
      obtain ⟨hOpen, hFree, hLow, hHigh, hRich⟩ := hAll
      rw [imp_iff_right ⟨eq_false_of_ne_true hTrading, hOpen, hFree, ⟨hLow, hHigh⟩, hRich⟩]
      exact sale_fair_iff (isInt_toInt _).toInt_eq delivers_give

end Goods

section Inn

variable {cfg : ServiceConfig} {quests : Checks} {s : State Desk}

/-- So much gold is carried, and so much has been granted. -/
def Settled (gold : Int) (log : List Grant) (s : State Desk) : Prop :=
  s.own 1 = gold ∧ s.store.granted = log

theorem calculateStats_keeps (gold : Int) (log : List Grant) :
    Keeps (Settled gold log) (calculateStats quests) := by
  intro s hs
  rw [calculateStats_apply]
  have hChecked : Settled gold log (s.checked quests) := ⟨(State.own_checked quests s 1).trans hs.1, hs.2⟩
  by_cases hThrows : s.Throws quests
  · rw [if_pos hThrows]
    exact hChecked
  · rw [if_neg hThrows]
    exact hChecked

theorem warp_keeps (gold : Int) (log : List Grant) (map x y : Int) :
    Keeps (Settled gold log) (warp quests map x y) :=
  Keeps.read fun _ => Keeps.bind (Keeps.modify fun _ hs => hs) fun _ =>
    Keeps.branch (Keeps.bind (calculateStats_keeps gold log) fun _ => calculateStats_keeps gold log)
      (calculateStats_keeps gold log)

/-- The end of `Citizen_Accept`, behind the payment. -/
def checkOut (cfg : ServiceConfig) (quests : Checks) (home : Option (Int × Int × Int)) :
    Prog Desk Unit := do
  modify (Grant.sleep.give cfg)
  match home with
  | some (map, x, y) => warp quests map x y
  | none => pure ()
  modify fun s => { s with body := { s.body with npcType := .npc } }

theorem checkOut_delivers (home : Option (Int × Int × Int)) :
    Delivers (checkOut cfg quests home) .sleep fun _ => True := by
  refine ⟨fun s _ => ?_, fun _ h => absurd trivial h⟩
  have hStart : Settled (s.own 1) (s.store.granted ++ [.sleep]) (Grant.sleep.give cfg s) :=
    ⟨Grant.own_give s 1, Grant.granted_give s⟩
  unfold checkOut
  rw [final_modify_bind]
  cases home with
  | none => exact hStart
  | some place =>
      obtain ⟨map, x, y⟩ := place
      have hWarp : Keeps (Settled (s.own 1) (s.store.granted ++ [.sleep]))
          (warp quests map x y >>= fun _ =>
            modify fun s => { s with body := { s.body with npcType := .npc } }) :=
        Keeps.bind (warp_keeps _ _ map x y) fun _ => Keeps.modify fun _ hs => hs
      exact hWarp.final hStart

/-- The checks of `Citizen_Accept` are passed. -/
def Sleeps (cfg : ServiceConfig) (s : State Desk) : Prop :=
  s.body.npcType = .inn ∧ sleepCost cfg s.body ≤ toUInt (available s)

theorem citizenAccept_fair_iff :
    Fair (sleepCost cfg s.body) .sleep s (final (citizenAccept cfg quests) s) ↔
      (Sleeps cfg s → Sold quests (fun _ => True) s (sleepCost cfg s.body)) := by
  unfold citizenAccept Sleeps available
  rw [final_read]
  dsimp only
  split
  case isTrue hInn =>
    split
    case isTrue hRich =>
      rw [imp_iff_right ⟨hInn, hRich⟩]
      exact sale_fair_iff rfl (checkOut_delivers s.store.home)
    case isFalse hPoor => exact iff_of_true (.inl rfl) fun h => absurd h.2 hPoor
  case isFalse hInn => exact iff_of_true (.inl rfl) fun h => absurd h.1 hInn

end Inn

section Skill

variable {cfg : ServiceConfig} {quests : Checks} {s : State Desk}

/-- `AddSpell` takes the skill. -/
def Learnable (cfg : ServiceConfig) (spell : Int) (s : State Desk) : Prop :=
  (0 < spell ∧ spell < cfg.esfSize) ∧ spell ∉ s.body.traits.spells

theorem addSpell_delivers (spell : Int) :
    Delivers (addSpell cfg quests spell) (.skill spell) (Learnable cfg spell) := by
  refine ⟨fun s h => ?_, fun s h => ?_⟩
  · obtain ⟨hKnown, hNew⟩ := h
    unfold addSpell
    rw [final_read, if_neg (by omega), if_neg hNew, final_modify_bind, calculateStats_last,
      State.own_checked, State.store_checked]
    exact ⟨Grant.own_give s 1, Grant.granted_give s⟩
  · unfold Learnable at h
    unfold addSpell
    rw [final_read]
    split
    · rfl
    case isFalse hKnown =>
      split
      · rfl
      case isFalse hNew => exact absurd ⟨by omega, hNew⟩ h

/-- The requirements of a skill are met. -/
def Meets (self : Traits) (spell : LearnSkill) : Prop :=
  (spell.levelreq ≤ self.level ∧ spell.strreq ≤ self.displayStr ∧ spell.intreq ≤ self.displayIntl ∧
    spell.wisreq ≤ self.displayWis ∧ spell.agireq ≤ self.displayAgi ∧
      spell.conreq ≤ self.displayCon ∧ spell.chareq ≤ self.displayCha) ∧
    (spell.classreq ≠ 0 → self.clas = spell.classreq) ∧
      ∀ req ∈ spell.skillreq, req ≠ 0 → req ∈ self.spells

/-- The checks of `StatSkill_Take` are passed. -/
def Teaches (s : State Desk) (spellId : Int) (spell : LearnSkill) : Prop :=
  toShort spellId ∉ s.body.traits.spells ∧ s.body.npcType = .skills ∧
    s.store.skillLearn.find? (·.id = toShort spellId) = some spell ∧ spell.cost ≤ available s ∧
      Meets s.body.traits spell

/-- The price of the skill that is asked for. -/
def skillCost (s : State Desk) (spellId : Int) : Int :=
  match s.store.skillLearn.find? (·.id = toShort spellId) with
  | none => 0
  | some spell => spell.cost

theorem statSkillTake_refused (spellId : Int) (h : ∀ spell, ¬Teaches s spellId spell) :
    final (statSkillTake cfg quests spellId) s = s := by
  unfold statSkillTake
  rw [final_read]
  dsimp only
  split
  · rfl
  case isFalse hNew =>
    split
    case isTrue hTeacher =>
      cases hFound : s.store.skillLearn.find? (·.id = toShort spellId) with
      | none => rfl
      | some spell =>
          dsimp only
          split
          · rfl
          case isFalse hStats =>
            split
            · rfl
            case isFalse hClass =>
              split
              · rfl
              case isFalse hSkills =>
                simp only [not_or, Int.not_lt] at hStats
                obtain ⟨hLevel, hRich, hStats⟩ := hStats
                refine absurd ⟨hNew, hTeacher, hFound, hRich, ⟨hLevel, hStats⟩, ?_, ?_⟩ (h spell)
                · simpa using hClass
                · simpa using hSkills
    · rfl

theorem statSkillTake_teaches {spellId : Int} {spell : LearnSkill} (h : Teaches s spellId spell) :
    final (statSkillTake cfg quests spellId) s =
      final (discard (delItem quests 1 spell.cost) >>= fun _ => addSpell cfg quests (toShort spellId)) s := by
  obtain ⟨hNew, hTeacher, hFound, hRich, ⟨hLevel, hStats⟩, hClass, hSkills⟩ := h
  have hPoor : ¬(s.body.traits.level < spell.levelreq ∨ hasItem s.body 1 false < spell.cost ∨
      s.body.traits.displayStr < spell.strreq ∨ s.body.traits.displayIntl < spell.intreq ∨
      s.body.traits.displayWis < spell.wisreq ∨ s.body.traits.displayAgi < spell.agireq ∨
      s.body.traits.displayCon < spell.conreq ∨ s.body.traits.displayCha < spell.chareq) := by
    simp only [not_or, Int.not_lt]
    exact ⟨hLevel, hRich, hStats⟩
  unfold statSkillTake
  rw [final_read]
  dsimp only
  rw [if_neg hNew, if_pos hTeacher, hFound]
  dsimp only
  rw [if_neg hPoor, if_neg (by simpa using hClass), if_neg (by simpa using hSkills)]

theorem statSkillTake_fair_iff (spellId : Int) :
    Fair (skillCost s spellId) (.skill (toShort spellId)) s (final (statSkillTake cfg quests spellId) s) ↔
      ((∃ spell, Teaches s spellId spell) →
        Sold quests (Learnable cfg (toShort spellId)) s (skillCost s spellId)) := by
  by_cases hTeaches : ∃ spell, Teaches s spellId spell
  · rw [imp_iff_right hTeaches]
    obtain ⟨spell, hSpell⟩ := hTeaches
    have hCost : skillCost s spellId = spell.cost := by
      rw [skillCost, hSpell.2.2.1]
    rw [statSkillTake_teaches hSpell, hCost]
    exact sale_fair_iff spell.cost_isInt.toInt_eq (addSpell_delivers _)
  · rw [statSkillTake_refused spellId (not_exists.mp hTeaches)]
    exact iff_of_true (.inl rfl) fun h => absurd h hTeaches

end Skill

section Deposit

variable {cfg : ServiceConfig} {quests : Checks} {s : State Desk}

/-- `AddBank` books the gold. -/
def Bookable (gold : Int) (s : State Desk) : Prop :=
  ∃ bank, s.store.guildBank = some bank ∧ 0 < gold ∧ 0 ≤ toInt (bank + gold)

theorem addBank_delivers (gold : Int) : Delivers (addBank cfg gold) (.deposit gold) (Bookable gold) := by
  refine ⟨fun s h => ?_, fun s h => ?_⟩
  · obtain ⟨bank, hBank, hRoom⟩ := h
    unfold addBank
    rw [final_read, hBank]
    dsimp only
    rw [if_pos hRoom, final_modify]
    exact ⟨Grant.own_give s 1, Grant.granted_give s⟩
  · unfold Bookable at h
    unfold addBank
    rw [final_read]
    cases hBank : s.store.guildBank with
    | none => rfl
    | some bank =>
        dsimp only
        split
        case isTrue hRoom => exact absurd ⟨bank, hBank, hRoom⟩ h
        case isFalse => rfl

/-- The checks of `Guild_Buy` are passed. -/
def Deposits (cfg : ServiceConfig) (s : State Desk) (gold bank : Int) : Prop :=
  s.body.trading = false ∧ s.body.nointeract = false ∧ 0 ≤ toInt gold ∧ s.body.npcType = .guild ∧
    s.store.guildBank = some bank ∧ 0 < toInt (cfg.guildBankMax - bank) ∧
      cfg.guildMinDeposit ≤ guildDeposit cfg bank (toInt gold) ∧
        guildDeposit cfg bank (toInt gold) ≤ available s

/-- The gold that goes to the guild. -/
def depositPrice (cfg : ServiceConfig) (s : State Desk) (gold : Int) : Int :=
  match s.store.guildBank with
  | none => 0
  | some bank => guildDeposit cfg bank (toInt gold)

theorem isInt_guildDeposit (bank gold : Int) : IsInt (guildDeposit cfg bank (toInt gold)) := by
  have hGold := isInt_toInt gold
  have hRoom := isInt_toInt (cfg.guildBankMax - bank)
  unfold guildDeposit IsInt at *
  omega

theorem guildBuy_fair_iff (gold : Int) :
    Fair (depositPrice cfg s gold) (.deposit (depositPrice cfg s gold)) s
        (final (guildBuy cfg quests gold) s) ↔
      ((∃ bank, Deposits cfg s gold bank) →
        Sold quests (Bookable (depositPrice cfg s gold)) s (depositPrice cfg s gold)) := by
  unfold guildBuy
  rw [final_read]
  dsimp only
  split
  case isTrue hTrading =>
    exact iff_of_true (.inl rfl) fun ⟨bank, h⟩ => absurd h.1 (by simp [hTrading])
  case isFalse hTrading =>
    split
    case isTrue hInteract =>
      exact iff_of_true (.inl rfl) fun ⟨bank, h⟩ => absurd h.2.1 (by simp [hInteract])
    case isFalse hInteract =>
      split
      case isTrue hLow => exact iff_of_true (.inl rfl) fun ⟨bank, h⟩ => absurd h.2.2.1 (by omega)
      case isFalse hGold =>
        split
        case isFalse hNpc => exact iff_of_true (.inl rfl) fun ⟨bank, h⟩ => absurd h.2.2.2.1 hNpc
        case isTrue hNpc =>
          unfold depositPrice
          cases hBank : s.store.guildBank with
          | none =>
              refine iff_of_true (.inl rfl) fun ⟨bank, h⟩ => ?_
              rw [Deposits, hBank] at h
              cases h.2.2.2.2.1
          | some bank =>
              dsimp only
              split
              case isTrue hFull =>
                refine iff_of_true (.inl rfl) fun ⟨other, h⟩ => ?_
                rw [Deposits, hBank] at h
                cases h.2.2.2.2.1
                exact absurd h.2.2.2.2.2.1 (by omega)
              case isFalse hRoom =>
                split
                case isTrue hRich =>
                  rw [imp_iff_right ⟨bank, eq_false_of_ne_true hTrading, eq_false_of_ne_true hInteract,
                    by omega, hNpc, hBank, by omega, hRich⟩]
                  exact sale_fair_iff (isInt_guildDeposit bank gold).toInt_eq (addBank_delivers _)
                case isFalse hPoor =>
                  refine iff_of_true (.inl rfl) fun ⟨other, h⟩ => ?_
                  rw [Deposits, hBank] at h
                  cases h.2.2.2.2.1
                  exact absurd h.2.2.2.2.2.2 hPoor

end Deposit

section Requests

inductive ServiceRequest
  | marriage (requestType : Int) (name : String) (queryFails : Bool)
  | haircut (style color : Int)
  | upgrade
  | sleep
  | song (player : String) (now track : Int)
  | skill (spellId : Int)
  | deposit (gold : Int)
  deriving DecidableEq

variable (cfg : ServiceConfig) (quests : Checks)

def serviceRequest : ServiceRequest → Prog Desk Unit
  | .marriage requestType name queryFails => marriageRequest cfg quests requestType name queryFails
  | .haircut style color => barberBuy cfg quests style color
  | .upgrade => lockerBuy cfg quests
  | .sleep => citizenAccept cfg quests
  | .song player now track => jukeboxMsg cfg quests player now track
  | .skill spellId => statSkillTake cfg quests spellId
  | .deposit gold => guildBuy cfg quests gold

namespace ServiceRequest

def price (s : State Desk) : ServiceRequest → Int
  | .marriage requestType _ _ =>
      if requestType = 1 then toInt cfg.marriagePrice else toInt cfg.divorcePrice
  | .haircut _ _ => barberPrice cfg s.body
  | .upgrade => upgradeCost cfg s.store.bankmax
  | .sleep => sleepCost cfg s.body
  | .song _ _ _ => toInt cfg.jukeboxPrice
  | .skill spellId => skillCost s spellId
  | .deposit gold => depositPrice cfg s gold

def grant (s : State Desk) : ServiceRequest → Grant
  | .marriage requestType name _ => if requestType = 1 then .approval (lowercase name) else .divorce
  | .haircut style color => .hair style color
  | .upgrade => .locker
  | .sleep => .sleep
  | .song player now _ => .song player now
  | .skill spellId => .skill (toShort spellId)
  | .deposit gold => .deposit (depositPrice cfg s gold)

/-- Where a request passes the checks, the price of it can be paid and nothing gets
in the way between the payment and the service. -/
def Held (s : State Desk) : ServiceRequest → Prop
  | .marriage requestType name queryFails => s.body.npcType = .law →
      (requestType = 1 → Approvable cfg s (lowercase name) →
        Sold quests (fun _ => True) s (toInt cfg.marriagePrice)) ∧
      (requestType = 2 → Divorceable cfg s (lowercase name) queryFails →
        Affords s (toInt cfg.divorcePrice))
  | .haircut style color =>
      Cuts cfg s style color → Sold quests (fun _ => True) s (barberPrice cfg s.body)
  | .upgrade => Upgrades cfg s → Affords s (upgradeCost cfg s.store.bankmax)
  | .sleep => Sleeps cfg s → Sold quests (fun _ => True) s (sleepCost cfg s.body)
  | .song _ now track =>
      Plays cfg s now track → Sold quests (fun _ => True) s (toInt cfg.jukeboxPrice)
  | .skill spellId => (∃ spell, Teaches s spellId spell) →
      Sold quests (Learnable cfg (toShort spellId)) s (skillCost s spellId)
  | .deposit gold => (∃ bank, Deposits cfg s gold bank) →
      Sold quests (Bookable (depositPrice cfg s gold)) s (depositPrice cfg s gold)

end ServiceRequest

theorem marriageRequest_fair_iff (s : State Desk) (requestType : Int) (name : String)
    (queryFails : Bool) :
    Fair (ServiceRequest.price cfg s (.marriage requestType name queryFails))
        (ServiceRequest.grant cfg s (.marriage requestType name queryFails)) s
        (final (marriageRequest cfg quests requestType name queryFails) s) ↔
      ServiceRequest.Held cfg quests s (.marriage requestType name queryFails) := by
  unfold marriageRequest ServiceRequest.price ServiceRequest.grant ServiceRequest.Held
  rw [final_read]
  dsimp only
  by_cases hLaw : s.body.npcType = .law
  · rw [imp_iff_right hLaw, if_neg (not_not.mpr hLaw)]
    by_cases hApproval : requestType = 1
    · rw [if_pos hApproval, if_pos hApproval, if_pos hApproval, marriageApproval_fair_iff,
        imp_iff_right hApproval]
      exact (and_iff_left fun hDivorce => absurd (hApproval.symm.trans hDivorce) (by decide)).symm
    · rw [if_neg hApproval, if_neg hApproval, if_neg hApproval]
      by_cases hDivorce : requestType = 2
      · rw [if_pos hDivorce, divorce_fair_iff, imp_iff_right hDivorce]
        exact (and_iff_right fun h => absurd h hApproval).symm
      · rw [if_neg hDivorce]
        exact iff_of_true (.inl rfl) ⟨fun h => absurd h hApproval, fun h => absurd h hDivorce⟩
  · rw [if_pos hLaw]
    exact iff_of_true (.inl rfl) fun h => absurd h hLaw

theorem serviceRequest_fair_iff (s : State Desk) (request : ServiceRequest) :
    Fair (request.price cfg s) (request.grant cfg s) s (final (serviceRequest cfg quests request) s) ↔
      request.Held cfg quests s := by
  cases request with
  | marriage requestType name queryFails =>
      exact marriageRequest_fair_iff cfg quests s requestType name queryFails
  | haircut style color => exact barberBuy_fair_iff style color
  | upgrade => exact lockerBuy_fair_iff
  | sleep => exact citizenAccept_fair_iff
  | song player now track => exact jukeboxMsg_fair_iff player now track
  | skill spellId => exact statSkillTake_fair_iff spellId
  | deposit gold => exact guildBuy_fair_iff gold

def smallTown : ServiceConfig :=
  { smallWorld with
    marriagePrice := 100
    divorcePrice := 100
    maxHairStyle := 20
    maxHairColor := 9
    barberBase := 0
    barberStep := 200
    bankUpgradeBase := 1000
    bankUpgradeStep := 1000
    maxBankUpgrades := 7
    innSleepCostBase := 0
    innSleepCostPerHP := 1
    innSleepCostPerTP := 1
    jukeboxSongs := 20
    jukeboxPrice := 25
    jukeboxTimer := 90
    esfSize := 10
    guildBankMax := 1000
    guildMinDeposit := 10 }

def smallDesk : Desk where
  bankmax := 0
  jukeboxes := fun _ => ⟨"", 0⟩
  guildBank := none
  partners := fun _ => none
  skillLearn := []
  home := none
  granted := []

/-- One piece of gold pays for an approval that costs a hundred. -/
theorem one_gold_pays_for_approval :
    ¬Fair 100 (.approval "anna") (beside (holding .law [.of 1 1]) smallDesk)
      (final (serviceRequest smallTown idle (.marriage 1 "Anna" false))
        (beside (holding .law [.of 1 1]) smallDesk)) := by
  rintro (hSame | ⟨-, hEnough, -⟩)
  · exact absurd (congrArg (fun s : State Desk => s.store.granted) hSame) (by decide)
  · exact absurd hEnough (by decide)

end Requests

end Etheos.Stores
