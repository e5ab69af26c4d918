import Etheos.Stores.Deaths
import Mathlib.Algebra.BigOperators.Group.Finset.Basic
import Mathlib.Algebra.Order.BigOperators.Group.Finset

/-! Items that are dropped, picked up, put on, taken off, thrown away and left behind by the dead are not doubled. -/
namespace Etheos.Deaths

open Characters CharacterItem General Stores
open scoped BigOperators

structure Person where
  body : Body
  paperdoll : List Int
  checks : Nat
  given : Int → Int

structure World where
  people : Nat → Person
  ground : Ground

/-- The configuration, the characters that are in the game and the maps that there are. -/
structure Realm where
  cfg : DeathConfig
  characters : Finset Nat
  maps : Finset Int

/-- What characters ask for, die of and where they go. Each event has the quest checks that may come with it. -/
inductive Event
  | request (c : Nat) (quests : Checks) (request : GroundRequest)
  | junk (c : Nat) (quests : Checks) (item amount : Int)
  | add (c : Nat) (quests : Checks) (itemid : Int) (subloc : UInt8) (meets : Bool)
  | remove (c : Nat) (quests : Checks) (itemid : Int) (subloc : UInt8)
  | die (c : Nat) (quests : Checks) (player : Int) (killer : Option Int) (now : Int)
  | move (c : Nat) (mapid x y : Int)

def Event.actor : Event → Nat
  | .request c _ _ | .junk c _ _ _ | .add c _ _ _ _ | .remove c _ _ _ | .die c _ _ _ _ | .move c _ _ _ => c

namespace World

variable (w : World)

def remains (c : Nat) : State Remains :=
  ⟨(w.people c).body, ⟨w.ground, (w.people c).paperdoll⟩, (w.people c).checks, (w.people c).given⟩

def put (c : Nat) (s : State Remains) : World :=
  ⟨Function.update w.people c ⟨s.body, s.store.paperdoll, s.checks, s.given⟩, s.store.ground⟩

end World

section Handlers

variable (cfg : DeathConfig) (quests : Checks)

def itemJunk (id amount : Int) : Prog Remains Unit := do
  let s ← get
  if s.body.trading then return ()
  else if toInt amount ≤ 0 then return ()
  else if toInt amount ≤ hasItem s.body (toShort id) false then discard (delItem quests (toShort id) (toInt amount))
  else return ()

/-- `Character::Equip`. Whether the character meets the requirements of the item is given. -/
def equip (item : Int) (subloc : UInt8) (meets : Bool) : Prog Remains Bool := do
  let s ← get
  if hasItem s.body item false = 0 then return false
  else if ¬meets then return false
  else
    match (cfg.itemType item).location subloc with
    | none => return false
    | some slot =>
        if s.store.paperdoll.getD slot 0 ≠ 0 then return false
        else
          modify fun s => s.put { s.store with paperdoll := s.store.paperdoll.set slot item }
          discard (delItem quests item 1)
          calculateStats quests
          return true

def paperdollAdd (itemid : Int) (subloc : UInt8) (meets : Bool) : Prog Remains Unit := do
  let s ← get
  if s.body.trading then return ()
  else discard (equip cfg quests (toShort itemid) subloc meets)

def paperdollRemove (itemid : Int) (subloc : UInt8) : Prog Remains Unit := do
  if cfg.cursed itemid then return ()
  else discard (unequip cfg quests (toShort itemid) subloc.toNat)

end Handlers

/-- The handlers of items on the ground do not look at the paperdoll. -/
def onGround (s : State Remains) : State Ground := ⟨s.body, s.store.ground, s.checks, s.given⟩

def withGround (s : State Remains) (t : State Ground) : State Remains :=
  ⟨t.body, ⟨t.store, s.store.paperdoll⟩, t.checks, t.given⟩

def perform (cfg : DeathConfig) (s : State Remains) : Event → State Remains
  | .request _ quests request =>
      withGround s (final (groundRequest cfg.toGroundConfig quests request) (onGround s))
  | .junk _ quests item amount => final (itemJunk quests item amount) s
  | .add _ quests itemid subloc meets => final (paperdollAdd cfg quests itemid subloc meets) s
  | .remove _ quests itemid subloc => final (paperdollRemove cfg quests itemid subloc) s
  | .die _ quests player killer now => final (dropAll cfg quests player killer now) s
  | .move _ mapid x y => { s with body := { s.body with mapid := mapid, x := x, y := y } }

/-- Nobody gets to a map that there is not. -/
def step (realm : Realm) (w : World) (event : Event) : Option World :=
  let s := perform realm.cfg (w.remains event.actor) event
  if event.actor ∈ realm.characters ∧ s.body.mapid ∈ realm.maps then some (w.put event.actor s) else none

/-- What there is of an item, without what quests have given. -/
def held (s : State Remains) (id : Int) : Int := s.own id + s.store.paperdoll.count id

def total (realm : Realm) (w : World) (id : Int) : Int :=
  ∑ c ∈ realm.characters, held (w.remains c) id + ∑ map ∈ realm.maps, Ground.lying id (w.ground map)

/-- No quest comes in between where items change their place, and nothing is put on from a stack below zero. -/
def Fair (w : World) : Event → Prop
  | .request _ quests (.get ..) => Steady quests
  | .request _ _ (.drop ..) | .junk .. | .remove .. => True
  | .add c _ itemid _ _ => 0 ≤ amountOf (w.people c).body.inventory (toShort itemid)
  | .die _ quests _ _ _ => Quiet quests
  | .move .. => True

/-- Nothing is doubled. -/
structure Lessened (s s' : State Remains) : Prop where
  others : ∀ map, map ≠ s.body.mapid → s'.store.ground map = s.store.ground map
  less : ∀ id, id ≠ 0 → held s' id + Ground.lying id (s'.store.ground s.body.mapid) ≤
    held s id + Ground.lying id (s.store.ground s.body.mapid)
  worn : (∀ id ∈ s.store.paperdoll, toShort id = id) → ∀ id ∈ s'.store.paperdoll, toShort id = id

section Requests

variable {cfg : GroundConfig} {quests : Checks} {s : State Ground}

/-- What is carried and what lies on the map, after a request. -/
structure GroundLess (s s' : State Ground) : Prop where
  others : ∀ map, map ≠ s.body.mapid → s'.store map = s.store map
  less : ∀ id, s'.own id + Ground.lying id (s'.store s.body.mapid) ≤ s.own id + Ground.lying id (s.store s.body.mapid)

theorem GroundLess.refl (s : State Ground) : GroundLess s s := ⟨fun _ _ => rfl, fun _ => Int.le_refl _⟩

/-- Where there is no room, what is dropped is gone. -/
theorem lying_addItem_le (cfg : GroundConfig) (new : MapItem) (items : List MapItem) (hPos : 0 ≤ new.amount)
    (id : Int) : Ground.lying id (Ground.addItem cfg new items) ≤
      Ground.lying id items + if id = new.id then new.amount else 0 := by
  by_cases hRoom : Ground.HasRoom cfg items new.x new.y
  · rw [Ground.lying_addItem hRoom]
  · rw [Ground.addItem, if_neg hRoom]
    split <;> omega

theorem itemDrop_less (player now id amount : Int) (x y : UInt8) :
    GroundLess s (final (itemDrop cfg quests player now id amount x y) s) := by
  by_cases hDrops : Drops cfg s id amount x y
  · have hChecks := hDrops
    obtain ⟨hTrading, -, -, hPos, -, -, hEnough, -⟩ := hChecks
    rw [hasItem_eq_amountOf hTrading] at hEnough
    obtain ⟨ground, hGround⟩ : ∃ ground, ground = Function.update s.store s.body.mapid
      (Ground.addItem cfg (newItem cfg s.body player now id amount x y) (s.store s.body.mapid)) := ⟨_, rfl⟩
    rw [itemDrop_drops hDrops, ← hGround]
    constructor
    · intro map hMap
      rw [delItem_store, State.store_put, hGround, Function.update_of_ne hMap]
    · intro item
      have hInt : IsInt (dropped cfg amount) := by
        have hAmount := isInt_toInt amount
        unfold IsInt dropped at *
        omega
      have hAmount : (newItem cfg s.body player now id amount x y).amount = dropped cfg amount := hInt.toInt_eq
      have hLying := lying_addItem_le cfg (newItem cfg s.body player now id amount x y) (s.store s.body.mapid)
        (by omega) item
      have hOwn := delItem_own quests (s.put ground) hPos hEnough item
      rw [State.own_put] at hOwn
      rw [hAmount] at hLying
      rw [delItem_store, State.store_put, hGround, Function.update_self, ← hGround, hOwn]
      change _ ≤ _ + if item = toShort id then dropped cfg amount else 0 at hLying
      omega
  · rw [itemDrop_refused hDrops]
    exact .refl s

/-- No more arrives than is given. -/
theorem received_le {cfg : Stores.Config} {items inventory : List CharacterItem} {item n : Int} (hn : IsInt n)
    (h : Stores.received cfg items item n = some inventory) (id : Int) :
    CharacterItem.total id inventory ≤ CharacterItem.total id items + if id = item then n else 0 := by
  have hPos := received_pos h
  unfold Stores.received at h
  rw [if_neg (by omega)] at h
  split at h
  · cases h
  · obtain ⟨hHeld, hOthers, hTotal⟩ := add_cases cfg.maxItem_isInt hn hPos h
    split
    case isTrue hId =>
      subst hId
      omega
    case isFalse hId =>
      rw [(hOthers id hId).2]
      omega

theorem itemGet_less (hSteady : Steady quests) (player now uid : Int) :
    GroundLess s (final (itemGet cfg quests player now uid) s) := by
  by_cases hPicks : ∃ item, PicksUp cfg s player now uid item
  · obtain ⟨item, hItem⟩ := hPicks
    rw [itemGet_picksUp hItem, addItem_final]
    obtain ⟨hFound, -, -, hPos⟩ := hItem
    have hUid : item.uid = toShort uid := Ground.uid_of_found hFound
    have hLe : picked cfg s item ≤ item.amount := canHoldItem_le hPos
    have hInt : IsInt (picked cfg s item) := by
      have hAmount := item.isInt
      unfold IsInt at *
      omega
    rw [← hUid] at hFound
    have hGone := Ground.delSomeItem_lying hFound hPos hLe
    unfold pickFrom
    cases hReceived : Stores.received cfg.toConfig s.body.inventory item.id (picked cfg s item) with
    | none =>
        dsimp only
        rw [final_modify]
        refine ⟨fun map hMap => Function.update_of_ne hMap _ _, fun id => ?_⟩
        rw [State.own_put, State.store_put, Function.update_self, hGone]
        split <;> omega
    | some inventory =>
        have hThrows : ¬(s.carry inventory).Throws quests := by
          rw [State.Throws, (hSteady _ _).1]
          exact Bool.false_ne_true
        have hMap : ((s.carry inventory).checked quests).body.mapid = s.body.mapid := (hSteady _ _).2
        dsimp only
        rw [if_neg hThrows, final_modify, hMap]
        refine ⟨fun map hMap => Function.update_of_ne hMap _ _, fun id => ?_⟩
        have hMore := received_le hInt hReceived id
        rw [State.own_put, State.store_put, Function.update_self, State.own_checked, State.own_carry,
          State.store_checked, State.store_carry, hGone]
        omega
  · rw [itemGet_refused (not_exists.mp hPicks)]
    exact .refl s

end Requests

theorem GroundLess.lessened {s : State Remains} {t : State Ground} (h : GroundLess (onGround s) t) :
    Lessened s (withGround s t) where
  others := h.others
  less id _ := by
    have hLess := h.less id
    have hHeld : held (withGround s t) id = t.own id + s.store.paperdoll.count id := rfl
    have hBefore : held s id = (onGround s).own id + s.store.paperdoll.count id := rfl
    rw [hHeld, hBefore]
    change t.own id + Ground.lying id (t.store s.body.mapid) ≤ _ at hLess
    change _ + Ground.lying id (t.store s.body.mapid) ≤ _ + Ground.lying id ((onGround s).store s.body.mapid)
    change _ ≤ _ + Ground.lying id ((onGround s).store s.body.mapid) at hLess
    omega
  worn hShort := hShort

theorem Conserved.lessened {s s' : State Remains} (h : Conserved s s') : Lessened s s' where
  others := h.others
  less id hId := by
    have hPresent := h.present id hId
    unfold Deaths.present at hPresent
    rw [h.mapid] at hPresent
    exact Int.le_of_eq hPresent
  worn := short_of_worn h.worn

theorem lessened_of_less {s s' : State Remains} (hStore : s'.store = s.store) (hOwn : ∀ id, s'.own id ≤ s.own id) :
    Lessened s s' where
  others map _ := by rw [hStore]
  less id _ := by
    have hLess := hOwn id
    unfold held
    rw [hStore]
    omega
  worn hShort := hStore ▸ hShort

theorem itemJunk_lessened {quests : Checks} {s : State Remains} (id amount : Int) :
    Lessened s (final (itemJunk quests id amount) s) := by
  have hRefl : Lessened s s := lessened_of_less rfl fun _ => Int.le_refl _
  unfold itemJunk
  rw [final_read]
  split
  · exact hRefl
  case isFalse hTrading =>
    split
    · exact hRefl
    case isFalse hPos =>
      split
      case isTrue hEnough =>
        rw [hasItem_eq_amountOf (eq_false_of_ne_true hTrading)] at hEnough
        refine lessened_of_less (delItem_store quests s _) fun item => ?_
        rw [delItem_own quests s (by omega) hEnough]
        split <;> omega
      · exact hRefl

/-- What is taken off is carried, or lost. -/
theorem lessened_takeOff {s s' : State Remains} {item : Int} {subloc place : Nat}
    (hPlace : wornPlace s item subloc = some place) (hStore : s'.store = (bared place s).store)
    (hOwn : ∀ id, s'.own id ≤ s.own id + if id = item then 1 else 0) : Lessened s s' where
  others map _ := by
    rw [hStore]
    rfl
  less id hId := by
    have hLess := hOwn id
    have hBared := bared_present hPlace hId
    unfold present at hBared
    have hOwnBared : (bared place s).own id = s.own id := rfl
    have hMap : (bared place s).body.mapid = s.body.mapid := rfl
    rw [hOwnBared, hMap] at hBared
    unfold held
    rw [hStore]
    split at hBared <;> split at hLess <;> omega
  worn hShort := by
    rw [hStore]
    exact short_of_worn bared_worn hShort

theorem calculateStats_own (quests : Checks) (s : State Remains) (id : Int) :
    let s' := final (do calculateStats quests; return true : Prog Remains Bool) s
    s'.store = s.store ∧ s'.own id = s.own id := by
  dsimp only
  rw [calculateStats_final, final_pure, ite_self]
  exact ⟨rfl, State.own_checked quests s id⟩

theorem unequip_lessened {cfg : DeathConfig} {quests : Checks} {s : State Remains} (item : Int) (subloc : Nat) :
    Lessened s (final (unequip cfg quests item subloc) s) := by
  have hRefl : Lessened s s := lessened_of_less rfl fun _ => Int.le_refl _
  by_cases hItem : item = 0
  · rw [hItem, final_of_ok (unequip_nothing cfg subloc)]
    exact hRefl
  · cases hPlace : wornPlace s item subloc with
    | none =>
        rw [final_of_ok (unequip_of_missing cfg hPlace)]
        exact hRefl
    | some place =>
        have hOwn (id : Int) : (bared place s).own id = s.own id := rfl
        rw [final, unequip_of_worn cfg hItem hPlace, ← final, addItem_final]
        cases hReceived : Stores.received cfg.toConfig (bared place s).body.inventory item 1 with
        | none =>
            refine lessened_takeOff hPlace (calculateStats_own quests (bared place s) 0).1 fun id => ?_
            rw [(calculateStats_own quests (bared place s) id).2, hOwn]
            split <;> omega
        | some inventory =>
            have hMore (id : Int) : (((bared place s).carry inventory).checked quests).own id ≤
                s.own id + if id = item then 1 else 0 := by
              have hReach := received_le (by decide) hReceived id
              rw [State.own_checked, State.own_carry, hOwn]
              omega
            dsimp only
            split
            · exact lessened_takeOff hPlace rfl hMore
            · refine lessened_takeOff hPlace (calculateStats_own quests _ 0).1 fun id => ?_
              rw [(calculateStats_own quests _ id).2]
              exact hMore id

theorem paperdollRemove_lessened {cfg : DeathConfig} {quests : Checks} {s : State Remains} (itemid : Int)
    (subloc : UInt8) : Lessened s (final (paperdollRemove cfg quests itemid subloc) s) := by
  have hRefl : Lessened s s := lessened_of_less rfl fun _ => Int.le_refl _
  unfold paperdollRemove
  split
  · exact hRefl
  · rw [final_discard]
    exact unequip_lessened (toShort itemid) subloc.toNat

/-- The state with the item put on. -/
def dressed (slot : Nat) (item : Int) (s : State Remains) : State Remains :=
  s.put { s.store with paperdoll := s.store.paperdoll.set slot item }

theorem dressed_count {s : State Remains} {slot : Nat} (hFree : s.store.paperdoll.getD slot 0 = 0) (item : Int)
    {id : Int} (hId : id ≠ 0) : ((dressed slot item s).store.paperdoll.count id : Int) ≤
      s.store.paperdoll.count id + if id = item then 1 else 0 := by
  have hWorn : (dressed slot item s).store.paperdoll = s.store.paperdoll.set slot item := rfl
  rw [hWorn]
  by_cases hSlot : slot < s.store.paperdoll.length
  · have hCount := Inventories.count_set
      (show slot < (Inventories.Bag.mk [] s.store.paperdoll).paperdoll.length from hSlot) item id
    have hNothing : Inventories.Bag.worn slot ⟨[], s.store.paperdoll⟩ = 0 := hFree
    rw [hNothing, if_neg (Ne.symm hId)] at hCount
    dsimp only at hCount
    split at hCount <;> split <;> omega
  · rw [List.set_eq_of_length_le (Nat.le_of_not_lt hSlot)]
    split <;> omega

/-- What is put on is not carried any more. -/
theorem lessened_putOn {s s' : State Remains} {item : Int} {slot : Nat} (hItem : toShort item = item)
    (hFree : s.store.paperdoll.getD slot 0 = 0) (hStore : s'.store = (dressed slot item s).store)
    (hOwn : ∀ id, s'.own id = s.own id - if id = item then 1 else 0) : Lessened s s' where
  others map _ := by
    rw [hStore]
    rfl
  less id hId := by
    have hCount := dressed_count hFree item hId
    have hLess := hOwn id
    have hGround : (dressed slot item s).store.ground = s.store.ground := rfl
    unfold held
    rw [hStore, hGround, hLess]
    omega
  worn hShort id hWorn := by
    rw [hStore] at hWorn
    rcases List.mem_or_eq_of_mem_set hWorn with hBefore | rfl
    · exact hShort id hBefore
    · exact hItem

theorem equip_lessened {cfg : DeathConfig} {quests : Checks} {s : State Remains} {item : Int} (subloc : UInt8)
    (meets : Bool) (hItem : toShort item = item) (hTrading : s.body.trading = false)
    (hStack : 0 ≤ amountOf s.body.inventory item) : Lessened s (final (equip cfg quests item subloc meets) s) := by
  have hRefl : Lessened s s := lessened_of_less rfl fun _ => Int.le_refl _
  unfold equip
  rw [final_read, hasItem_eq_amountOf hTrading]
  split
  · exact hRefl
  case isFalse hSome =>
    split
    · exact hRefl
    · cases (cfg.itemType item).location subloc with
      | none => exact hRefl
      | some slot =>
          dsimp only
          split
          · exact hRefl
          case isFalse hTaken =>
            have hFree : s.store.paperdoll.getD slot 0 = 0 := not_not.mp hTaken
            have hEnough : 1 ≤ amountOf (dressed slot item s).body.inventory item :=
              Int.lt_iff_le_and_ne.mpr ⟨hStack, Ne.symm hSome⟩
            obtain ⟨inventory, hSurrendered⟩ := surrendered_isSome Int.one_pos hEnough
            have hOwn (id : Int) : (((dressed slot item s).carry inventory).checked quests).own id =
                s.own id - if id = item then 1 else 0 := by
              have hSame : (dressed slot item s).own id = s.own id := rfl
              rw [State.own_checked, State.own_carry, surrendered_total hEnough hSurrendered, hSame]
              omega
            rw [final_modify_bind]
            change Lessened s (final (discard (delItem quests item 1) >>= fun _ => _) (dressed slot item s))
            rw [delItem_final, hSurrendered]
            dsimp only
            split
            · exact lessened_putOn hItem hFree rfl hOwn
            · refine lessened_putOn hItem hFree (calculateStats_own quests _ 0).1 fun id => ?_
              rw [(calculateStats_own quests _ id).2]
              exact hOwn id

theorem paperdollAdd_lessened {cfg : DeathConfig} {quests : Checks} {s : State Remains} (itemid : Int) (subloc : UInt8)
    (meets : Bool) (hStack : 0 ≤ amountOf s.body.inventory (toShort itemid)) :
    Lessened s (final (paperdollAdd cfg quests itemid subloc meets) s) := by
  unfold paperdollAdd
  rw [final_read]
  split
  · exact lessened_of_less rfl fun _ => Int.le_refl _
  case isFalse hTrading =>
    rw [final_discard]
    exact equip_lessened subloc meets (toShort_toShort itemid) (eq_false_of_ne_true hTrading) hStack

/-- What one event does where it happens. -/
theorem perform_lessened {cfg : DeathConfig} {w : World} {event : Event} (hFair : Fair w event)
    (hShort : ∀ id ∈ (w.people event.actor).paperdoll, toShort id = id) :
    Lessened (w.remains event.actor) (perform cfg (w.remains event.actor) event) := by
  cases event with
  | request c quests request =>
      cases request with
      | drop player now item amount x y => exact (itemDrop_less player now item amount x y).lessened
      | get player now uid => exact (itemGet_less hFair player now uid).lessened
  | junk c quests item amount => exact itemJunk_lessened item amount
  | add c quests itemid subloc meets => exact paperdollAdd_lessened itemid subloc meets hFair
  | remove c quests itemid subloc => exact paperdollRemove_lessened itemid subloc
  | die c quests player killer now => exact (dropAll_conserved cfg player killer now hFair hShort).lessened
  | move c mapid x y => exact ⟨fun _ _ => rfl, fun _ _ => Int.le_refl _, id⟩

section Bags

variable {files : Inventories.Files} {cfg : DeathConfig} {quests : Checks} {s : State Remains} {item : Int}

/-- What the functions of a bag see. -/
def bag (s : State Remains) : Inventories.Bag := ⟨s.body.inventory, s.store.paperdoll⟩

/-- The same item file, and the same limit. -/
structure Agrees (files : Inventories.Files) (cfg : DeathConfig) : Prop where
  size : files.eifSize = cfg.eifSize
  limit : files.maxItem = cfg.maxItem
  type : ∀ id, (files.eif id).type = cfg.itemType id

theorem addItem_quiet (cfg : DeathConfig) (hQuiet : Quiet quests) (s : State Remains) (item n : Int) :
    ∃ added s', addItem cfg.toConfig quests item n s = .ok added s' ∧ s'.store = s.store ∧
      s'.body.inventory = (Stores.received cfg.toConfig s.body.inventory item n).getD s.body.inventory := by
  rw [addItem_apply]
  cases Stores.received cfg.toConfig s.body.inventory item n with
  | none => exact ⟨false, s, rfl, rfl, rfl⟩
  | some inventory =>
      obtain ⟨-, hInventory, hThrows⟩ := carried_quiet hQuiet s inventory
      dsimp only
      rw [if_neg hThrows]
      exact ⟨true, _, rfl, rfl, hInventory⟩

theorem delItem_quiet (hQuiet : Quiet quests) (s : State Remains) (item n : Int) :
    ∃ removed s', delItem quests item n s = .ok removed s' ∧ s'.store = s.store ∧
      s'.body.inventory = (surrendered s.body.inventory item n).getD s.body.inventory := by
  rw [delItem_apply]
  cases surrendered s.body.inventory item n with
  | none => exact ⟨false, s, rfl, rfl, rfl⟩
  | some inventory =>
      obtain ⟨-, hInventory, hThrows⟩ := carried_quiet hQuiet s inventory
      dsimp only
      rw [if_neg hThrows]
      exact ⟨true, _, rfl, rfl, hInventory⟩

theorem bag_addItem (hAgrees : Agrees files cfg) (own : Inventories.Bag) (n : Int) :
    own.addItem files item n =
      ⟨(Stores.received cfg.toConfig own.inventory item n).getD own.inventory, own.paperdoll⟩ := by
  unfold Inventories.Bag.addItem Stores.received
  rw [hAgrees.size, hAgrees.limit]
  split
  · rfl
  · split <;> rfl

theorem bag_delItem (own : Inventories.Bag) (n : Int) :
    own.delItem item n = ⟨(surrendered own.inventory item n).getD own.inventory, own.paperdoll⟩ := by
  unfold Inventories.Bag.delItem surrendered
  split <;> rfl

/-- Without quests, `Unequip` does to the bag what the function of bags does. -/
theorem unequip_refines (hAgrees : Agrees files cfg) (hQuiet : Quiet quests) (subloc : Nat) :
    bag (final (unequip cfg quests item subloc) s) = (Inventories.unequip files item subloc (bag s)).2 := by
  unfold Inventories.unequip Inventories.Bag.wornAt
  by_cases hItem : item = 0
  · subst hItem
    rw [final_of_ok (unequip_nothing cfg subloc)]
    rfl
  · rw [if_neg hItem]
    change _ = (match wornPlace s item subloc with
      | none => (false, bag s)
      | some location => (true, (bag (bared location s)).addItem files item 1)).2
    cases hPlace : wornPlace s item subloc with
    | none =>
        rw [final_of_ok (unequip_of_missing cfg hPlace)]
    | some place =>
        obtain ⟨added, s1, hAdd, hStore, hInventory⟩ := addItem_quiet cfg hQuiet (bared place s) item 1
        have hStats := calculateStats_quiet hQuiet s1
        dsimp only
        rw [final, unequip_of_worn cfg hItem hPlace, ← final, final_bind_of_ok (discard_of_ok hAdd),
          final_bind_of_ok hStats, final_pure, bag_addItem hAgrees]
        unfold bag
        rw [checked_inventory hQuiet, hInventory, State.store_checked, hStore]

/-- Without quests, `Equip` does to the bag what the function of bags does. -/
theorem equip_refines (hAgrees : Agrees files cfg) (hQuiet : Quiet quests) (wearer : Inventories.Wearer)
    (subloc : UInt8) (hTrading : s.body.trading = false) (hWearer : wearer.trading = false) :
    bag (final (equip cfg quests item subloc ((bag s).mayEquip files wearer item)) s) =
      (Inventories.equip files wearer item subloc (bag s)).2 := by
  have hHas : (bag s).hasItem wearer item = amountOf s.body.inventory item := by
    have hBag : (bag s).inventory = s.body.inventory := rfl
    unfold Inventories.Bag.hasItem amountOf
    rw [hWearer, hBag]
    cases s.body.inventory.find? (·.id = item) with
    | none => rfl
    | some stack => rfl
  unfold equip
  rw [Inventories.equip_eq, final_read, hasItem_eq_amountOf hTrading, hHas, hAgrees.type]
  by_cases hSome : amountOf s.body.inventory item = 0
  · rw [if_pos hSome, if_pos hSome]
    rfl
  · rw [if_neg hSome, if_neg hSome]
    by_cases hMeets : (bag s).mayEquip files wearer item
    · rw [if_neg (not_not.mpr hMeets), if_pos hMeets]
      cases (cfg.itemType item).location subloc with
      | none => rfl
      | some slot =>
          dsimp only
          unfold Inventories.characterEquipOneslot
          have hWorn : (bag s).worn slot = s.store.paperdoll.getD slot 0 := rfl
          rw [hWorn]
          split
          · rfl
          · obtain ⟨removed, s1, hDel, hStore, hInventory⟩ := delItem_quiet hQuiet (dressed slot item s) item 1
            have hStats := calculateStats_quiet hQuiet s1
            change bag (final (discard (delItem quests item 1) >>= fun _ => _) (dressed slot item s)) = _
            rw [final_bind_of_ok (discard_of_ok hDel), final_bind_of_ok hStats, final_pure, bag_delItem]
            unfold bag
            rw [checked_inventory hQuiet, hInventory, State.store_checked, hStore]
            rfl
    · rw [if_pos hMeets, if_neg hMeets]
      rfl

end Bags

section Worlds

variable {realm : Realm} {w next : World} {event : Event}

theorem sum_changed {ι : Type} [DecidableEq ι] {all : Finset ι} {i : ι} (hMem : i ∈ all) {f g : ι → Int}
    (hOthers : ∀ j, j ≠ i → g j = f j) : ∑ j ∈ all, g j = ∑ j ∈ all, f j - f i + g i := by
  have hBefore : f i + ∑ j ∈ all.erase i, f j = ∑ j ∈ all, f j := Finset.add_sum_erase all f hMem
  have hAfter : g i + ∑ j ∈ all.erase i, g j = ∑ j ∈ all, g j := Finset.add_sum_erase all g hMem
  have hRest : ∑ j ∈ all.erase i, g j = ∑ j ∈ all.erase i, f j :=
    Finset.sum_congr rfl fun j hj => hOthers j (Finset.ne_of_mem_erase hj)
  omega

theorem put_self (c : Nat) (s : State Remains) : (w.put c s).remains c = s := by
  simp [World.put, World.remains]

theorem put_other {c d : Nat} (hOther : d ≠ c) (s : State Remains) : (w.put c s).people d = w.people d :=
  Function.update_of_ne hOther _ _

/-- One character has changed, and one map. -/
theorem total_put {c : Nat} {s : State Remains} (hCharacter : c ∈ realm.characters)
    (hMap : (w.people c).body.mapid ∈ realm.maps) (h : Lessened (w.remains c) s) {id : Int} (hId : id ≠ 0) :
    total realm (w.put c s) id ≤ total realm w id := by
  have hPeople : ∀ d, d ≠ c → held ((w.put c s).remains d) id = held (w.remains d) id := by
    intro d hOther
    have hSame := put_other (w := w) hOther s
    unfold held State.own World.remains
    rw [hSame]
  have hGround : ∀ map, map ≠ (w.people c).body.mapid →
      Ground.lying id ((w.put c s).ground map) = Ground.lying id (w.ground map) := by
    intro map hOther
    exact congrArg _ (h.others map hOther)
  have hLess := h.less id hId
  unfold total
  rw [sum_changed hCharacter hPeople, sum_changed hMap hGround, put_self]
  change _ + Ground.lying id (s.store.ground (w.people c).body.mapid) ≤
    _ + Ground.lying id (w.ground (w.people c).body.mapid) at hLess
  change _ + (_ - _ + Ground.lying id (s.store.ground (w.people c).body.mapid)) ≤ _
  omega

/-- Everybody is on a map, and wears what has the number of an item. -/
structure Proper (realm : Realm) (w : World) : Prop where
  maps : ∀ c ∈ realm.characters, (w.people c).body.mapid ∈ realm.maps
  worn : ∀ c ∈ realm.characters, ∀ id ∈ (w.people c).paperdoll, toShort id = id

theorem step_cases (h : step realm w event = some next) :
    event.actor ∈ realm.characters ∧ (perform realm.cfg (w.remains event.actor) event).body.mapid ∈ realm.maps ∧
      next = w.put event.actor (perform realm.cfg (w.remains event.actor) event) := by
  unfold step at h
  dsimp only at h
  split at h
  case isTrue hAllowed => exact ⟨hAllowed.1, hAllowed.2, (Option.some.inj h).symm⟩
  case isFalse => cases h

theorem Proper.step (hProper : Proper realm w) (hFair : Fair w event) (h : step realm w event = some next) :
    Proper realm next ∧ ∀ id, id ≠ 0 → total realm next id ≤ total realm w id := by
  obtain ⟨hActor, hMap, rfl⟩ := step_cases h
  have hLess : Lessened (w.remains event.actor) (perform realm.cfg (w.remains event.actor) event) :=
    perform_lessened hFair (hProper.worn _ hActor)
  have hSelf := put_self (w := w) event.actor (perform realm.cfg (w.remains event.actor) event)
  refine ⟨⟨fun d hd => ?_, fun d hd => ?_⟩, fun id hId => total_put hActor (hProper.maps _ hActor) hLess hId⟩
  · by_cases hSame : d = event.actor
    · subst hSame
      exact (congrArg (·.body.mapid) hSelf).symm ▸ hMap
    · rw [put_other hSame]
      exact hProper.maps d hd
  · by_cases hSame : d = event.actor
    · subst hSame
      have hPaperdoll : ((w.put event.actor _).people event.actor).paperdoll = _ := congrArg (·.store.paperdoll) hSelf
      rw [hPaperdoll]
      exact hLess.worn (hProper.worn _ hActor)
    · rw [put_other hSame]
      exact hProper.worn d hd

/-- Whatever characters drop, pick up and leave behind when they die, in any order, there is never more of an item
than at the start, carried, worn and on the maps, apart from what quests have given. -/
theorem never_doubled (hProper : Proper realm w) {events : List Event}
    (hFair : Avoids (step realm) (fun w event => ¬Fair w event) w events) :
    Always (step realm) (fun w' => ∀ id, id ≠ 0 → total realm w' id ≤ total realm w id) w events := by
  have hAlways : Always (step realm)
      (fun w' => Proper realm w' ∧ ∀ id, id ≠ 0 → total realm w' id ≤ total realm w id) w events := by
    refine always_of_avoids ?_ ⟨hProper, fun _ _ => Int.le_refl _⟩ hFair
    intro s event next ⟨hHere, hSoFar⟩ hGood hStep
    obtain ⟨hNext, hLess⟩ := hHere.step (not_not.mp hGood) hStep
    exact ⟨hNext, fun id hId => (hLess id hId).trans (hSoFar id hId)⟩
  exact hAlways.mono fun _ h => h.2

end Worlds

section Sample

theorem idle_quiet : Quiet idle := ⟨fun _ _ => ⟨rfl, rfl⟩, fun _ _ => rfl⟩

def village : Realm where
  cfg := { smallGround with
    itemType := fun id => if id = 3 then .ring else .static
    cursed := fun _ => false
    protectPKDrop := 60
    protectDeathDrop := 300 }
  characters := {1}
  maps := {1}

/-- A character that wears one of its two rings. -/
def villager : World where
  people _ := ⟨holding .npc [.of 2 30, .of 3 1], [0, 0, 0, 0, 0, 0, 0, 0, 0, 3, 0, 0, 0, 0, 0], 0, fun _ => 0⟩
  ground _ := []

/-- It puts on the other ring, leaves some items and dies, and comes back for a ring. -/
def funeral : List Event :=
  [.add 1 idle 3 1 true, .request 1 idle (.drop 7 0 2 10 255 255), .junk 1 idle 2 5, .remove 1 idle 3 0,
    .die 1 idle 7 none 0, .move 1 1 6 5, .request 1 idle (.get 7 5 3)]

theorem funeral_fair : Avoids (step village) (fun w event => ¬Fair w event) villager funeral := by
  unfold funeral
  cases hStep : step village villager (.add 1 idle 3 1 true) with
  | none => exact avoids_blocked hStep _
  | some next =>
      refine (avoids_cons hStep _).mpr ⟨not_not.mpr (by decide : (0 : Int) ≤ 1), avoids_of_forall ?_⟩
      intro event hEvent w
      simp only [List.mem_cons, List.not_mem_nil, or_false] at hEvent
      obtain rfl | rfl | rfl | rfl | rfl | rfl := hEvent
      · exact not_not.mpr trivial
      · exact not_not.mpr trivial
      · exact not_not.mpr trivial
      · exact not_not.mpr idle_quiet
      · exact not_not.mpr trivial
      · exact not_not.mpr idle_quiet.1

theorem never_doubled_funeral :
    (run (step village) villager funeral).isSome ∧
      Always (step village) (fun w' => ∀ id, id ≠ 0 → total village w' id ≤ total village villager id) villager
        funeral := by
  refine ⟨by decide +kernel, never_doubled ⟨fun _ _ => Finset.mem_singleton_self 1, fun _ _ => ?_⟩ funeral_fair⟩
  show ∀ id ∈ ([0, 0, 0, 0, 0, 0, 0, 0, 0, 3, 0, 0, 0, 0, 0] : List Int), toShort id = id
  decide

/-- A quest that takes a ring as soon as it is taken off leaves it on the map as well. -/
example :
    (run (step village) villager [.die 1 (fun _ body => ({ body with inventory := [] }, false)) 7 none 0]).map
      (total village · 3) = some (total village villager 3 + 1) := by
  decide +kernel

end Sample

end Etheos.Deaths
