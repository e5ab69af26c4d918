import Etheos.Character.Items
import Etheos.General.Run

/-! What the functions of a character do to the items that it carries and wears. At their end
`CalculateStats` checks the quests; what those add and remove are further calls. -/
namespace Etheos.Inventories

open Characters CharacterItem General

inductive EIFType
  | static | unknownType1 | money | heal | teleport | spell | expReward | statReward | skillReward | key
  | weapon | shield | armor | hat | boots | gloves | accessory | belt | necklace | ring | armlet | bracer
  | beer | effectPotion | hairDye | cureCurse
  deriving Repr, DecidableEq

inductive EIFSubType
  | none | ranged | arrows | wings | twoHanded
  deriving Repr, DecidableEq

/-- What `Equip` reads of an item. -/
structure EIFData where
  type : EIFType
  subtype : EIFSubType
  gender : UInt8
  dualWieldDollgraphic : UInt8
  levelreq : Int
  classreq : Int
  strreq : Int
  intreq : Int
  wisreq : Int
  agireq : Int
  conreq : Int
  chareq : Int
  deriving Repr, DecidableEq

structure Files extends Config where
  eif : Int → EIFData
  ecfBase : Int → Int

/-- What is carried and what is worn. -/
structure Bag where
  inventory : List CharacterItem
  paperdoll : List Int
  deriving DecidableEq

/-- What `Equip` reads of a character, apart from its bag. -/
structure Wearer where
  trading : Bool
  tradeInventory : List CharacterItem
  gender : UInt8
  clas : Int
  level : Int
  displayStr : Int
  displayIntl : Int
  displayWis : Int
  displayAgi : Int
  displayCon : Int
  displayCha : Int

/-- The places of `EquipLocation`. -/
def EIFType.location (subloc : UInt8) : EIFType → Option Nat
  | weapon => some 8
  | shield => some 7
  | hat => some 6
  | boots => some 0
  | gloves => some 2
  | accessory => some 1
  | belt => some 3
  | armor => some 4
  | necklace => some 5
  | ring => some (if subloc = 0 then 9 else 10)
  | armlet => some (if subloc = 0 then 11 else 12)
  | bracer => some (if subloc = 0 then 13 else 14)
  | _ => none

namespace Bag

variable (files : Files)

def addItem (item amount : Int) (bag : Bag) : Bag :=
  if amount ≤ 0 then bag
  else if item ≤ 0 ∨ files.eifSize ≤ item then bag
  else { bag with inventory := (add files.maxItem item amount bag.inventory).getD bag.inventory }

def delItem (item amount : Int) (bag : Bag) : Bag :=
  if amount ≤ 0 then bag
  else { bag with inventory := (del item amount bag.inventory).getD bag.inventory }

/-- `DelItem` with an iterator, which is not the end of the list. -/
def delItemAt (index : Nat) (amount : Int) (bag : Bag) : Bag :=
  if amount ≤ 0 then bag
  else
    match bag.inventory[index]? with
    | none => bag
    | some it =>
        if it.amount < 0 ∨ it.amount - amount ≤ 0 then
          { bag with inventory := bag.inventory.eraseIdx index }
        else { bag with inventory := bag.inventory.set index (.of it.id (it.amount - amount)) }

def hasItem (wearer : Wearer) (item : Int) (bag : Bag) : Int :=
  match bag.inventory.find? (·.id = item) with
  | none => 0
  | some it =>
      if wearer.trading then
        match wearer.tradeInventory.find? (·.id = item) with
        | some tradeItem => max (it.amount - tradeItem.amount) 0
        | none => it.amount
      else it.amount

def worn (location : Nat) (bag : Bag) : Int := bag.paperdoll.getD location 0

/-- The checks of `Equip` behind the one for the item. -/
def mayEquip (wearer : Wearer) (item : Int) (bag : Bag) : Bool :=
  let eif := files.eif item
  let ecfBase := files.ecfBase wearer.clas
  let shield := files.eif (bag.worn 7)
  let weapon := files.eif (bag.worn 8)
  ¬((eif.type = .armor ∧ eif.gender ≠ wearer.gender) ∨
    (eif.type = .weapon ∧ eif.subtype = .twoHanded ∧ bag.worn 7 ≠ 0 ∧
      (eif.dualWieldDollgraphic ≠ 0 ∨ (shield.subtype ≠ .arrows ∧ shield.subtype ≠ .wings))) ∨
    (eif.type = .shield ∧ bag.worn 8 ≠ 0 ∧ weapon.subtype = .twoHanded ∧
      (weapon.dualWieldDollgraphic ≠ 0 ∨ (eif.subtype ≠ .arrows ∧ eif.subtype ≠ .wings))) ∨
    wearer.level < eif.levelreq ∨ (wearer.clas ≠ eif.classreq ∧ ecfBase ≠ eif.classreq) ∨
    wearer.displayStr < eif.strreq ∨ wearer.displayIntl < eif.intreq ∨ wearer.displayWis < eif.wisreq ∨
    wearer.displayAgi < eif.agireq ∨ wearer.displayCon < eif.conreq ∨ wearer.displayCha < eif.chareq)

def equip (wearer : Wearer) (item : Int) (subloc : UInt8) (bag : Bag) : Bag :=
  if bag.hasItem wearer item = 0 then bag
  else if bag.mayEquip files wearer item then
    match (files.eif item).type.location subloc with
    | none => bag
    | some location =>
        if bag.worn location ≠ 0 then bag
        else { bag with paperdoll := bag.paperdoll.set location item }.delItem item 1
  else bag

/-- The place that `Unequip` takes the item from. -/
def wornAt (item : Int) (subloc : Nat) (bag : Bag) : Option Nat :=
  if item = 0 then none
  else (List.range bag.paperdoll.length).find? fun i => bag.worn i = item ∧ sublocOf i = subloc

def unequip (item : Int) (subloc : Nat) (bag : Bag) : Bag :=
  match bag.wornAt item subloc with
  | none => bag
  | some location => { bag with paperdoll := bag.paperdoll.set location 0 }.addItem files item 1

end Bag

/-- Calls of the functions. The amounts are values of an `int`. -/
inductive Call
  | addItem (c : CharId) (item : CharacterItem)
  | delItem (c : CharId) (item : CharacterItem)
  | delItemAt (c : CharId) (index : Nat) (amount : Int)
  | equip (c : CharId) (wearer : Wearer) (item : Int) (subloc : UInt8)
  | unequip (c : CharId) (item : Int) (subloc : Nat)

/-- The calls of the two loops of `Trade_Agree`. -/
def swapCalls (c p : CharId) (tradeInventory partnerInventory : List CharacterItem) : List Call :=
  (partnerInventory.flatMap fun item => [.delItem p item, .addItem c item]) ++
    tradeInventory.flatMap fun item => [.delItem c item, .addItem p item]

inductive Operation
  | single (call : Call)
  | swap (c p : CharId) (tradeInventory partnerInventory : List CharacterItem)

def Operation.calls : Operation → List Call
  | .single call => [call]
  | .swap c p tradeInventory partnerInventory => swapCalls c p tradeInventory partnerInventory

abbrev Bags := CharId → Bag

section Calls

variable (files : Files)

def Call.character : Call → CharId
  | addItem c _ | delItem c _ | delItemAt c _ _ | equip c _ _ _ | unequip c _ _ => c

def Call.change : Call → Bag → Bag
  | addItem _ item, bag => bag.addItem files item.id item.amount
  | delItem _ item, bag => bag.delItem item.id item.amount
  | delItemAt _ index amount, bag => bag.delItemAt index amount
  | equip _ wearer item subloc, bag => bag.equip files wearer item subloc
  | unequip _ item subloc, bag => bag.unequip files item subloc

def step (bags : Bags) (call : Call) : Option Bags :=
  some (Function.update bags call.character (call.change files (bags call.character)))

end Calls

/-- An inventory as it should be. -/
structure Proper (files : Files) (items : List CharacterItem) : Prop where
  unique : (items.map (·.id)).Nodup
  valid : ∀ item ∈ items, 0 < item.id ∧ item.id < files.eifSize
  amounts : ∀ item ∈ items, 1 ≤ item.amount ∧ item.amount ≤ files.maxItem

/-- A stack that is not there yet would be more than `MaxItem`. -/
def TooMany (files : Files) (item amount : Int) (bag : Bag) : Prop :=
  0 < item ∧ item < files.eifSize ∧ files.maxItem < amount ∧ 0 < amount ∧ ∀ i ∈ bag.inventory, i.id ≠ item

instance (files : Files) (item amount : Int) (bag : Bag) : Decidable (TooMany files item amount bag) :=
  inferInstanceAs (Decidable (_ ∧ _ ∧ _ ∧ _ ∧ _))

/-- The call makes such a stack. What is taken off comes back as one item. -/
def Overfills (files : Files) (bags : Bags) : Call → Prop
  | .addItem c item => TooMany files item.id item.amount (bags c)
  | .unequip c item subloc => (bags c).wornAt item subloc ≠ none ∧ TooMany files item 1 (bags c)
  | .delItem _ _ | .delItemAt _ _ _ | .equip _ _ _ _ => False

section Lists

variable {files : Files} {items : List CharacterItem} {item : CharacterItem} {id n : Int}

theorem Proper.sublist {rest : List CharacterItem} (h : Proper files items) (hRest : rest.Sublist items) :
    Proper files rest where
  unique := h.unique.sublist (hRest.map _)
  valid i hi := h.valid i (hRest.subset hi)
  amounts i hi := h.amounts i (hRest.subset hi)

/-- The stack that was found gets another amount. -/
theorem Proper.change (h : Proper files items) (hFound : items.find? (·.id = id) = some item) {f : Int → Int}
    (hAmount : 1 ≤ toInt (f item.amount) ∧ toInt (f item.amount) ≤ files.maxItem) :
    Proper files (CharacterItem.change id f items) where
  unique := by
    rw [ids_change hFound]
    exact h.unique
  valid i hi := by
    rcases mem_change hFound hi with hOld | rfl
    · exact h.valid i hOld
    · rw [of_id, ← id_of_found hFound]
      exact h.valid item (List.mem_of_find?_eq_some hFound)
  amounts i hi := by
    rcases mem_change hFound hi with hOld | rfl
    · exact h.amounts i hOld
    · exact hAmount

theorem Proper.set (h : Proper files items) {index : Nat} (hItem : items[index]? = some item)
    (hAmount : 1 ≤ toInt n ∧ toInt n ≤ files.maxItem) : Proper files (items.set index (of item.id n)) where
  unique := by
    obtain ⟨hIndex, rfl⟩ := List.getElem?_eq_some_iff.mp hItem
    have hIds : (items.set index items[index]).map (·.id) = items.map (·.id) := by rw [List.set_getElem_self]
    rw [List.map_set] at hIds
    rw [List.map_set, of_id, hIds]
    exact h.unique
  valid i hi := by
    rcases List.mem_or_eq_of_mem_set hi with hOld | rfl
    · exact h.valid i hOld
    · exact h.valid item (List.mem_of_getElem? hItem)
  amounts i hi := by
    rcases List.mem_or_eq_of_mem_set hi with hOld | rfl
    · exact h.amounts i hOld
    · exact hAmount

theorem Proper.append (h : Proper files items) (hMissing : items.find? (·.id = id) = none)
    (hId : 0 < id ∧ id < files.eifSize) (hAmount : 1 ≤ toInt n ∧ toInt n ≤ files.maxItem) :
    Proper files (items ++ [of id n]) where
  unique := by
    rw [List.map_append, List.map_singleton, of_id]
    refine h.unique.append (List.nodup_singleton _) fun x hOld hNew => ?_
    obtain ⟨i, hi, rfl⟩ := List.mem_map.mp hOld
    exact id_of_missing hMissing i hi (List.mem_singleton.mp hNew)
  valid := List.forall_mem_append.mpr ⟨h.valid, List.forall_mem_singleton.mpr hId⟩
  amounts := List.forall_mem_append.mpr ⟨h.amounts, List.forall_mem_singleton.mpr hAmount⟩

theorem min_bounds {a b : Int} (ha : 1 ≤ a) (hb : 1 ≤ b ∧ IsInt b) (hInt : IsInt a) :
    1 ≤ toInt (min a b) ∧ toInt (min a b) ≤ b := by
  have hMin : IsInt (min a b) := by
    have hBound := hb.2
    unfold IsInt at *
    omega
  rw [hMin.toInt_eq]
  omega

end Lists

section Bags

variable {files : Files} {bag : Bag} {item n : Int}

theorem addItem_proper (h : Proper files bag.inventory) (hn : IsInt n) (hFits : ¬TooMany files item n bag) :
    Proper files (bag.addItem files item n).inventory := by
  unfold Bag.addItem
  split
  · exact h
  split
  · exact h
  case isFalse hAmount hId =>
    have hValid : 0 < item ∧ item < files.eifSize := by omega
    dsimp only
    cases hFound : bag.inventory.find? (·.id = item) with
    | none =>
        rw [add_of_missing hFound]
        refine h.append hFound hValid ?_
        rw [hn.toInt_eq]
        refine ⟨by omega, ?_⟩
        by_contra hOver
        exact hFits ⟨hValid.1, hValid.2, by omega, by omega, id_of_missing hFound⟩
    | some it =>
        obtain ⟨hLow, hHigh⟩ := h.amounts it (List.mem_of_find?_eq_some hFound)
        rw [add_of_found hFound]
        split
        · exact h
        · have hSum : toInt (it.amount + n) = it.amount + n := toInt_add it.isInt hn (by omega) (by omega)
          have hInt : IsInt (it.amount + n) := hSum ▸ isInt_toInt _
          refine h.change hFound ?_
          rw [hSum]
          exact min_bounds (by omega) ⟨by omega, files.maxItem_isInt⟩ hInt

/-- The amount that is left of a stack. -/
theorem less_bounds {it : CharacterItem} (hMax : it.amount ≤ files.maxItem) (hn : 0 < n) (hMore : 0 < it.amount - n) :
    1 ≤ toInt (it.amount - n) ∧ toInt (it.amount - n) ≤ files.maxItem := by
  have hInt : IsInt (it.amount - n) := by
    have hOld := it.isInt
    unfold IsInt at *
    omega
  rw [hInt.toInt_eq]
  omega

theorem delItem_proper (h : Proper files bag.inventory) : Proper files (bag.delItem item n).inventory := by
  unfold Bag.delItem
  split
  · exact h
  case isFalse hAmount =>
    dsimp only
    cases hFound : bag.inventory.find? (·.id = item) with
    | none =>
        rw [del_of_missing hFound]
        exact h
    | some it =>
        rw [del_of_found hFound]
        split
        · rw [erase_eq hFound]
          exact h.sublist (General.Entries.eraseFirst_sublist _ _)
        · refine h.change hFound (less_bounds (h.amounts it (List.mem_of_find?_eq_some hFound)).2 ?_ ?_)
          · omega
          · omega

theorem delItemAt_proper (h : Proper files bag.inventory) (index : Nat) :
    Proper files (bag.delItemAt index n).inventory := by
  unfold Bag.delItemAt
  split
  · exact h
  case isFalse hAmount =>
    cases hItem : bag.inventory[index]? with
    | none => exact h
    | some it =>
        dsimp only
        split
        · exact h.sublist (List.eraseIdx_sublist _ _)
        · have hMem : it ∈ bag.inventory := List.mem_of_getElem? hItem
          refine h.set hItem (less_bounds (h.amounts it hMem).2 ?_ ?_)
          · omega
          · omega

theorem equip_proper (h : Proper files bag.inventory) (wearer : Wearer) (subloc : UInt8) :
    Proper files (bag.equip files wearer item subloc).inventory := by
  unfold Bag.equip
  split
  · exact h
  split
  · split
    · exact h
    · split
      · exact h
      · exact delItem_proper h
  · exact h

theorem unequip_proper (h : Proper files bag.inventory) (subloc : Nat)
    (hFits : bag.wornAt item subloc ≠ none → ¬TooMany files item 1 bag) :
    Proper files (bag.unequip files item subloc).inventory := by
  unfold Bag.unequip
  split
  · exact h
  case h_2 location hWorn =>
    have hSome : bag.wornAt item subloc ≠ none := by rw [hWorn]; exact nofun
    exact addItem_proper h (by decide) (hFits hSome)

end Bags

section Runs

variable {files : Files} {bags : Bags}

/-- All characters have inventories as they should be. -/
def AllProper (files : Files) (bags : Bags) : Prop := ∀ c, Proper files (bags c).inventory

theorem change_proper (h : AllProper files bags) {call : Call} (hCall : ¬Overfills files bags call) :
    Proper files (call.change files (bags call.character)).inventory := by
  cases call with
  | addItem c item => exact addItem_proper (h c) item.isInt hCall
  | delItem c item => exact delItem_proper (h c)
  | delItemAt c index amount => exact delItemAt_proper (h c) index
  | equip c wearer item subloc => exact equip_proper (h c) wearer subloc
  | unequip c item subloc => exact unequip_proper (h c) subloc fun hWorn hMany => hCall ⟨hWorn, hMany⟩

theorem step_proper {call : Call} {next : Bags} (h : AllProper files bags) (hCall : ¬Overfills files bags call)
    (hStep : step files bags call = some next) : AllProper files next := by
  cases hStep
  intro c
  rcases eq_or_ne c call.character with rfl | hOther
  · rw [Function.update_self]
    exact change_proper h hCall
  · rw [Function.update_of_ne hOther]
    exact h c

/-- A new stack has the amount that was asked for. -/
theorem addItem_tooMany {bag : Bag} {item n : Int} (hMany : TooMany files item n bag) (hn : IsInt n) :
    ¬Proper files (bag.addItem files item n).inventory := by
  obtain ⟨hLow, hHigh, hOver, hPos, hMissing⟩ := hMany
  have hFound : bag.inventory.find? (·.id = item) = none :=
    List.find?_eq_none.mpr fun i hi hId => hMissing i hi (of_decide_eq_true hId)
  rw [Bag.addItem, if_neg (by omega), if_neg (by omega), add_of_missing hFound]
  intro h
  have hNew := (h.amounts (of item n) (List.mem_append_right _ List.mem_cons_self)).2
  rw [of_amount, hn.toInt_eq] at hNew
  omega

theorem step_overfills {call : Call} {next : Bags} (hCall : Overfills files bags call)
    (hStep : step files bags call = some next) : ¬AllProper files next := by
  cases hStep
  intro h
  have hOwn := h call.character
  rw [Function.update_self] at hOwn
  cases call with
  | addItem c item => exact addItem_tooMany hCall item.isInt hOwn
  | unequip c item subloc =>
      obtain ⟨hWorn, hMany⟩ := hCall
      obtain ⟨location, hLocation⟩ := Option.ne_none_iff_exists'.mp hWorn
      have hTaken : (Call.unequip c item subloc).change files (bags c) =
          { bags c with paperdoll := (bags c).paperdoll.set location 0 }.addItem files item 1 := by
        rw [Call.change, Bag.unequip, hLocation]
      have hSame : TooMany files item 1 { bags c with paperdoll := (bags c).paperdoll.set location 0 } := hMany
      rw [Call.character, hTaken] at hOwn
      exact addItem_tooMany hSame (by decide) hOwn
  | delItem => exact hCall
  | delItemAt => exact hCall
  | equip => exact hCall

/-- The inventories are as they should be between any two calls exactly if no new stack is too big. -/
theorem allProper_iff (files : Files) {bags : Bags} (h : AllProper files bags) (operations : List Operation) :
    Always (step files) (AllProper files) bags (operations.flatMap Operation.calls) ↔
      Avoids (step files) (Overfills files) bags (operations.flatMap Operation.calls) :=
  always_iff_avoids (fun _ hAll => hAll) (fun _ _ _ hAll hCall => step_proper hAll hCall)
    (fun _ _ _ _ hCall => step_overfills hCall) h _

instance (bags : Bags) : DecidablePred (Overfills files bags)
  | .addItem _ _ => inferInstanceAs (Decidable (TooMany _ _ _ _))
  | .unequip _ _ _ => inferInstanceAs (Decidable (_ ∧ _))
  | .delItem _ _ | .delItemAt _ _ _ | .equip _ _ _ _ => inferInstanceAs (Decidable False)

/-- The limit as it is shipped, and rings for everyone. -/
def ringFiles : Files where
  eifSize := 500
  special := fun _ => .normal
  mapExists := fun _ => true
  jailMap := 76
  spawnMap := fun _ => 1
  maxItem := 2000000000
  maxItem_isInt := isInt_maxItem
  maxTrade := 2000000000
  tradeAddQuantity := true
  enforceTimestamps := true
  deadly := false
  eif := fun _ => ⟨.ring, .none, 0, 0, 0, 0, 0, 0, 0, 0, 0, 0⟩
  ecfBase := fun _ => 0

def emptyBag : Bag := ⟨[], List.replicate 15 0⟩

theorem emptyBag_proper : AllProper ringFiles fun _ => emptyBag := fun _ =>
  ⟨List.nodup_nil, fun _ hItem => absurd hItem List.not_mem_nil, fun _ hItem => absurd hItem List.not_mem_nil⟩

def ringBearer : Wearer := ⟨false, [], 0, 0, 1, 0, 0, 0, 0, 0, 0⟩

/-- Rings are found, one is worn and taken off, and some are swapped for gold. -/
def ringDeal : List Operation :=
  [.single (.addItem 1 (.of 7 3)), .single (.equip 1 ringBearer 7 1), .single (.addItem 2 (.of 1 2000000000)),
    .swap 1 2 [.of 7 2] [.of 1 500], .single (.unequip 1 7 1), .single (.delItemAt 2 1 5)]

theorem allProper_ringDeal :
    Always (step ringFiles) (AllProper ringFiles) (fun _ => emptyBag) (ringDeal.flatMap Operation.calls) :=
  (allProper_iff ringFiles emptyBag_proper ringDeal).mpr (by decide +kernel)

/-- As many as an `int` can count, of an item that is not carried. -/
theorem not_allProper_newStack :
    ¬Always (step ringFiles) (AllProper ringFiles) (fun _ => emptyBag)
      (([.single (.addItem 1 (.of 7 2147483647))] : List Operation).flatMap Operation.calls) := by
  intro h
  have hMany : Overfills ringFiles (fun _ => emptyBag) (.addItem 1 (.of 7 2147483647)) := by decide
  exact step_overfills hMany rfl (h [_] _ (List.prefix_refl _) rfl)

end Runs

end Etheos.Inventories
