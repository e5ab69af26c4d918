import Etheos.Character.Inventory

/-! What a character wears after `Equip`, `Unequip` and the cure of curses in any order. -/
namespace Etheos.Inventories

open Characters CharacterItem

/-- A record of the item file before anything is read into it. -/
def EIFData.blank : EIFData := ⟨.static, .none, 0, 0, 0, 0, 0, 0, 0, 0, 0, 0⟩

/-- What is read from an item file. The number of records is written in two bytes. -/
structure ItemFile where
  records : List EIFData
  size : records.length < 2 ^ 16

namespace ItemFile

variable (file : ItemFile)

/-- `EIF::Get`, with the conversion to `unsigned int`. -/
def get (id : Int) : EIFData := (EIFData.blank :: file.records).getD (id % 2 ^ 32).toNat .blank

def files (cfg : Config) (ecfBase : Int → Int) : Files :=
  { cfg with eifSize := file.records.length + 1, eif := file.get, ecfBase := ecfBase }

variable {file}

/-- A number that is no item gets the blank record. -/
theorem get_unknown {id : Int} (hShort : -2 ^ 15 ≤ id ∧ id < 2 ^ 15)
    (h : id ≤ 0 ∨ (file.records.length + 1 : Nat) ≤ id) : file.get id = .blank := by
  have hSize := file.size
  unfold get
  by_cases hZero : id = 0
  · simp [hZero]
  · rw [List.getD_eq_getElem?_getD, List.getElem?_eq_none]
    · rfl
    · rw [List.length_cons]
      omega

end ItemFile

section Functions

variable (files : Files)

/-- The item is put on, and it is not carried any more. -/
def characterEquipOneslot (item : Int) (slot : Nat) (bag : Bag) : Bool × Bag :=
  if bag.worn slot ≠ 0 then (false, bag)
  else (true, { bag with paperdoll := bag.paperdoll.set slot item }.delItem item 1)

def characterEquipTwoslot (item : Int) (subloc : UInt8) (slot1 slot2 : Nat) (bag : Bag) : Bool × Bag :=
  if subloc = 0 then
    if bag.worn slot1 ≠ 0 then (false, bag)
    else (true, { bag with paperdoll := bag.paperdoll.set slot1 item }.delItem item 1)
  else
    if bag.worn slot2 ≠ 0 then (false, bag)
    else (true, { bag with paperdoll := bag.paperdoll.set slot2 item }.delItem item 1)

/-- `Equip` with its result. -/
def equip (wearer : Wearer) (item : Int) (subloc : UInt8) (bag : Bag) : Bool × Bag :=
  if bag.hasItem wearer item = 0 then (false, bag)
  else if bag.mayEquip files wearer item then
    match (files.eif item).type with
    | .weapon => characterEquipOneslot item 8 bag
    | .shield => characterEquipOneslot item 7 bag
    | .hat => characterEquipOneslot item 6 bag
    | .boots => characterEquipOneslot item 0 bag
    | .gloves => characterEquipOneslot item 2 bag
    | .accessory => characterEquipOneslot item 1 bag
    | .belt => characterEquipOneslot item 3 bag
    | .armor => characterEquipOneslot item 4 bag
    | .necklace => characterEquipOneslot item 5 bag
    | .ring => characterEquipTwoslot item subloc 9 10 bag
    | .armlet => characterEquipTwoslot item subloc 11 12 bag
    | .bracer => characterEquipTwoslot item subloc 13 14 bag
    | _ => (false, bag)
  else (false, bag)

/-- `Unequip` with its result. -/
def unequip (item : Int) (subloc : Nat) (bag : Bag) : Bool × Bag :=
  match bag.wornAt item subloc with
  | none => (false, bag)
  | some location => (true, { bag with paperdoll := bag.paperdoll.set location 0 }.addItem files item 1)

/-- What a quest check gives or takes. -/
inductive Gift
  | give (item : CharacterItem)
  | take (item : CharacterItem)

def Gift.apply (bag : Bag) : Gift → Bag
  | give item => bag.addItem files item.id item.amount
  | take item => bag.delItem item.id item.amount

def uncurse (bag : Bag) : Bag :=
  { bag with paperdoll := bag.paperdoll.map fun item => if files.special item = .cursed then 0 else item }

/-- `Item_Use` for an item that cures curses. The quest check in it gives and takes
something, or it throws. -/
def cureCurse (wearer : Wearer) (itemid : Int) (during : Option (List Gift)) (bag : Bag) : Bag :=
  if wearer.trading then bag
  else if bag.hasItem wearer (toShort itemid) = 0 then bag
  else if (files.eif itemid).type ≠ .cureCurse then bag
  else if bag.paperdoll.any fun item => files.special item = .cursed then
    match during with
    | none => uncurse files bag
    | some gifts => (gifts.foldl (Gift.apply files) (uncurse files bag)).delItem (toShort itemid) 1
  else bag

/-- What is done to a character. The level, the class and the rest of the wearer may
differ each time. The quest checks at the end are acts of their own. -/
inductive Act
  | equip (wearer : Wearer) (item : Int) (subloc : UInt8)
  | unequip (item : Int) (subloc : UInt8)
  | cureCurse (wearer : Wearer) (itemid : Int) (during : Option (List Gift))
  | quests (gifts : List Gift)

def act (bag : Bag) : Act → Bag
  | .equip wearer item subloc => (equip files wearer (toShort item) subloc bag).2
  | .unequip item subloc => (unequip files (toShort item) subloc.toNat bag).2
  | .cureCurse wearer itemid during => cureCurse files wearer itemid during bag
  | .quests gifts => gifts.foldl (Gift.apply files) bag

end Functions

/-- What is worn in a place. -/
def slotType : Nat → Option EIFType
  | 0 => some .boots
  | 1 => some .accessory
  | 2 => some .gloves
  | 3 => some .belt
  | 4 => some .armor
  | 5 => some .necklace
  | 6 => some .hat
  | 7 => some .shield
  | 8 => some .weapon
  | 9 | 10 => some .ring
  | 11 | 12 => some .armlet
  | 13 | 14 => some .bracer
  | _ => none

theorem slotType_location {type : EIFType} {subloc : UInt8} {location : Nat}
    (h : type.location subloc = some location) : slotType location = some type ∧ location < 15 := by
  cases type <;> simp [EIFType.location] at h <;> (try split at h) <;> subst h <;> simp [slotType]

section Cases

variable {files : Files} {wearer : Wearer} {item : Int} {subloc : UInt8} {bag : Bag}

theorem characterEquipTwoslot_eq (slot1 slot2 : Nat) :
    characterEquipTwoslot item subloc slot1 slot2 bag =
      characterEquipOneslot item (if subloc = 0 then slot1 else slot2) bag := by
  unfold characterEquipTwoslot characterEquipOneslot
  by_cases h : subloc = 0 <;> simp [h]

/-- Each kind of item has its place. -/
theorem equip_eq :
    equip files wearer item subloc bag =
      if bag.hasItem wearer item = 0 then (false, bag)
      else if bag.mayEquip files wearer item then
        match (files.eif item).type.location subloc with
        | none => (false, bag)
        | some location => characterEquipOneslot item location bag
      else (false, bag) := by
  unfold equip
  simp only [characterEquipTwoslot_eq]
  cases (files.eif item).type <;> rfl

/-- The result does not matter to what is carried and worn. -/
theorem equip_bag : (equip files wearer item subloc bag).2 = bag.equip files wearer item subloc := by
  rw [equip_eq, Bag.equip]
  unfold characterEquipOneslot
  split
  · rfl
  split
  · cases (files.eif item).type.location subloc with
    | none => rfl
    | some location =>
        dsimp only
        split
        · rfl
        · rfl
  · rfl

theorem unequip_bag (subloc : Nat) : (unequip files item subloc bag).2 = bag.unequip files item subloc := by
  unfold unequip Bag.unequip
  cases bag.wornAt item subloc with
  | none => rfl
  | some location => rfl

end Cases

/-- What is worn as it should be. -/
structure Dressed (files : Files) (bag : Bag) : Prop where
  size : bag.paperdoll.length = 15
  types : ∀ location, bag.worn location ≠ 0 →
    slotType location = some (files.eif (bag.worn location)).type
  twoHanded : bag.worn 8 ≠ 0 → (files.eif (bag.worn 8)).subtype = .twoHanded → bag.worn 7 ≠ 0 →
    ((files.eif (bag.worn 7)).subtype = .arrows ∨ (files.eif (bag.worn 7)).subtype = .wings) ∧
      (files.eif (bag.worn 8)).dualWieldDollgraphic = 0

/-- No stack is empty. A limit below zero makes stacks of its own size. -/
def Stacked (files : Files) (items : List CharacterItem) : Prop :=
  ∀ item ∈ items, 1 ≤ item.amount ∨ files.maxItem ≤ item.amount

/-- All items that are worn are in the item file. -/
structure Outfit (files : Files) (bag : Bag) : Prop extends Dressed files bag where
  known : ∀ location, bag.worn location ≠ 0 →
    0 < bag.worn location ∧ bag.worn location < files.eifSize
  stacked : Stacked files bag.inventory

/-- What there is of an item, in the inventory and on the paperdoll. -/
def held (id : Int) (bag : Bag) : Int := total id bag.inventory + bag.paperdoll.count id

/-- The stack of the item, if there is one, is below the limit. -/
def Room (files : Files) (item : Int) (bag : Bag) : Prop :=
  ∀ stack, bag.inventory.find? (·.id = item) = some stack → stack.amount < files.maxItem

section Slots

variable {files : Files} {bag bag' : Bag} {location : Nat} {item : Int}

variable (item) in
theorem worn_set (h : location < bag.paperdoll.length) (inventory : List CharacterItem) (x : Nat) :
    Bag.worn x ⟨inventory, bag.paperdoll.set location item⟩ = if x = location then item else bag.worn x := by
  unfold Bag.worn
  rw [List.getD_eq_getElem?_getD, List.getElem?_set]
  by_cases hx : x = location
  · simp [hx, h]
  · simp [hx, Ne.symm hx]

/-- One place of the paperdoll changes. -/
theorem count_set (h : location < bag.paperdoll.length) (item id : Int) :
    ((bag.paperdoll.set location item).count id : Int) + (if bag.worn location = id then 1 else 0) =
      bag.paperdoll.count id + if item = id then 1 else 0 := by
  have hWorn : bag.worn location = bag.paperdoll[location] := by
    rw [Bag.worn, List.getD_eq_getElem?_getD, List.getElem?_eq_getElem h, Option.getD_some]
  have hCount : bag.paperdoll[location] = id → 0 < bag.paperdoll.count id := fun hId =>
    List.count_pos_iff.mpr (hId ▸ List.getElem_mem h)
  rw [List.count_set h, hWorn]
  simp only [beq_iff_eq]
  split <;> split <;> grind

/-- Taking things off leaves the rest as it should be. -/
theorem Dressed.less (h : Dressed files bag) (hSize : bag'.paperdoll.length = bag.paperdoll.length)
    (hLess : ∀ x, bag'.worn x = bag.worn x ∨ bag'.worn x = 0) : Dressed files bag' where
  size := hSize.trans h.size
  types x hx := by
    have hSame := (hLess x).resolve_right hx
    rw [hSame] at hx ⊢
    exact h.types x hx
  twoHanded hWeapon hHands hShield := by
    have hSame := (hLess 8).resolve_right hWeapon
    have hSame' := (hLess 7).resolve_right hShield
    rw [hSame] at hWeapon hHands ⊢
    rw [hSame'] at hShield ⊢
    exact h.twoHanded hWeapon hHands hShield

/-- The checks of `Equip` keep two hands from holding a shield as well. -/
theorem Dressed.put {wearer : Wearer} {subloc : UInt8} (h : Dressed files bag)
    (hMay : bag.mayEquip files wearer item = true)
    (hLocation : (files.eif item).type.location subloc = some location) (inventory : List CharacterItem) :
    Dressed files ⟨inventory, bag.paperdoll.set location item⟩ := by
  obtain ⟨hType, hPlace⟩ := slotType_location hLocation
  have hSet := worn_set item (h.size ▸ hPlace) inventory
  unfold Bag.mayEquip at hMay
  simp only [decide_eq_true_eq, not_or, not_and] at hMay
  obtain ⟨-, hHands, hShield, -⟩ := hMay
  refine ⟨(List.length_set ..).trans h.size, fun x hx => ?_, ?_⟩
  · rw [hSet] at hx ⊢
    split
    case isTrue hHere =>
      rw [hHere]
      exact hType
    case isFalse hOther =>
      rw [if_neg hOther] at hx
      exact h.types x hx
  · rw [hSet, hSet]
    by_cases hWeapon : location = 8
    · subst hWeapon
      have hIs : (files.eif item).type = .weapon := (Option.some.inj hType).symm
      simp only [if_true, if_neg (by decide : ¬7 = 8)]
      intro _ hSub hWorn
      have hFits := hHands hIs hSub hWorn
      grind
    · by_cases hOther : location = 7
      · subst hOther
        have hIs : (files.eif item).type = .shield := (Option.some.inj hType).symm
        simp only [if_true, if_neg (by decide : ¬8 = 7)]
        intro hWorn hSub _
        have hFits := hShield hIs hWorn hSub
        grind
      · rw [if_neg (Ne.symm hWeapon), if_neg (Ne.symm hOther)]
        exact h.twoHanded

end Slots

section Stacks

variable {files : Files} {bag : Bag} {item n : Int}

theorem addItem_stacked (h : Stacked files bag.inventory) (hn : IsInt n) :
    Stacked files (bag.addItem files item n).inventory := by
  unfold Bag.addItem
  split
  · exact h
  split
  · exact h
  case isFalse hAmount _ =>
    dsimp only
    cases hFound : bag.inventory.find? (·.id = item) with
    | none =>
        rw [add_of_missing hFound]
        refine List.forall_mem_append.mpr ⟨h, List.forall_mem_singleton.mpr (.inl ?_)⟩
        rw [of_amount, hn.toInt_eq]
        omega
    | some stack =>
        rw [add_of_found hFound]
        split
        · exact h
        · have hSum : toInt (stack.amount + n) = stack.amount + n :=
            toInt_add stack.isInt hn (by omega) (by omega)
          have hMin : IsInt (min (toInt (stack.amount + n)) files.maxItem) := by
            have hLimit := files.maxItem_isInt
            have hLarge := isInt_toInt (stack.amount + n)
            unfold IsInt at *
            omega
          have hOld := h stack (List.mem_of_find?_eq_some hFound)
          intro i hi
          obtain hSame | rfl := mem_change hFound hi
          · exact h i hSame
          · rw [of_amount, hMin.toInt_eq, hSum]
            omega

theorem delItem_stacked (h : Stacked files bag.inventory) :
    Stacked files (bag.delItem item n).inventory := by
  unfold Bag.delItem
  split
  · exact h
  case isFalse hAmount =>
    dsimp only
    cases hFound : bag.inventory.find? (·.id = item) with
    | none =>
        rw [del_of_missing hFound]
        exact h
    | some stack =>
        rw [del_of_found hFound]
        split
        · rw [erase_eq hFound]
          exact fun i hi => h i ((General.Entries.eraseFirst_sublist _ _).subset hi)
        · have hLess : IsInt (stack.amount - n) := by
            have hOld := stack.isInt
            unfold IsInt at *
            omega
          intro i hi
          obtain hSame | rfl := mem_change hFound hi
          · exact h i hSame
          · rw [of_amount, hLess.toInt_eq]
            omega

/-- Where there is room, one item more is one item more. -/
theorem addItem_total (h : Stacked files bag.inventory) (hRoom : Room files item bag)
    (hKnown : 0 < item ∧ item < files.eifSize) (id : Int) :
    total id (bag.addItem files item 1).inventory =
      total id bag.inventory + if item = id then 1 else 0 := by
  rw [Bag.addItem, if_neg (by decide), if_neg (by omega)]
  dsimp only
  cases hFound : bag.inventory.find? (·.id = item) with
  | none =>
      rw [add_of_missing hFound, Option.getD_some, total_append, total, total, of_id, of_amount, Int.add_zero,
        (by decide : IsInt 1).toInt_eq]
  | some stack =>
      have hBelow := hRoom stack hFound
      have hLow := h stack (List.mem_of_find?_eq_some hFound)
      have hLimit := files.maxItem_isInt
      have hSum : toInt (stack.amount + 1) = stack.amount + 1 := by
        refine IsInt.toInt_eq ?_
        unfold IsInt at *
        omega
      rw [add_of_found hFound, if_neg (by omega), Option.getD_some, total_change hFound, hSum,
        min_eq_left (by omega), hSum]
      split <;> split <;> omega

/-- What is carried can be taken away once. -/
theorem delItem_total (h : Stacked files bag.inventory) (hRoom : Room files item bag) {wearer : Wearer}
    (hHas : bag.hasItem wearer item ≠ 0) (id : Int) :
    total id (bag.delItem item 1).inventory + (if item = id then 1 else 0) = total id bag.inventory := by
  rw [Bag.delItem, if_neg (by decide)]
  dsimp only
  unfold Bag.hasItem at hHas
  cases hFound : bag.inventory.find? (·.id = item) with
  | none =>
      rw [hFound] at hHas
      exact absurd rfl hHas
  | some stack =>
      have hBelow := hRoom stack hFound
      have hLow := h stack (List.mem_of_find?_eq_some hFound)
      have hAmount : amountOf bag.inventory item = stack.amount := by
        rw [amountOf, hFound]
      obtain ⟨rest, hRest⟩ := Option.ne_none_iff_exists'.mp (del_ne_none hFound 1)
      obtain ⟨-, hOwn, hOthers⟩ := del_cases (by decide) hRest
      rw [hRest, Option.getD_some]
      split
      case isTrue hId =>
        subst hId
        have hLeft := hOwn (by omega)
        omega
      case isFalse hId =>
        rw [(hOthers id (Ne.symm hId)).2]
        omega

end Stacks

/-- A call that fails changes nothing. One that succeeds keeps what there is of each
item, unless the stack is at the limit or above it. No item has the number 0. -/
structure Moved (files : Files) (item : Int) (bag : Bag) (result : Bool × Bag) : Prop where
  failed : result.1 = false → result.2 = bag
  kept : result.1 = true → Room files item bag → ∀ id, id ≠ 0 → held id result.2 = held id bag

section Calls

variable {files : Files} {wearer : Wearer} {item : Int} {bag : Bag}

/-- All that `Equip` does. -/
theorem equip_cases (files : Files) (wearer : Wearer) (item : Int) (subloc : UInt8) (bag : Bag) :
    equip files wearer item subloc bag = (false, bag) ∨
      ∃ location, bag.hasItem wearer item ≠ 0 ∧ bag.mayEquip files wearer item = true ∧
        (files.eif item).type.location subloc = some location ∧ bag.worn location = 0 ∧
          equip files wearer item subloc bag =
            (true, { bag with paperdoll := bag.paperdoll.set location item }.delItem item 1) := by
  rw [equip_eq]
  split
  · exact .inl rfl
  case isFalse hHas =>
    split
    case isTrue hMay =>
      cases hLocation : (files.eif item).type.location subloc with
      | none => exact .inl rfl
      | some location =>
          dsimp only
          unfold characterEquipOneslot
          split
          · exact .inl rfl
          case isFalse hFree =>
            exact .inr ⟨location, hHas, hMay, rfl, Decidable.not_not.mp hFree, rfl⟩
    · exact .inl rfl

/-- All that `Unequip` does. -/
theorem unequip_cases (files : Files) (item : Int) (subloc : Nat) (bag : Bag) :
    unequip files item subloc bag = (false, bag) ∨
      ∃ location, item ≠ 0 ∧ location < bag.paperdoll.length ∧ bag.worn location = item ∧
        unequip files item subloc bag =
          (true, { bag with paperdoll := bag.paperdoll.set location 0 }.addItem files item 1) := by
  unfold unequip
  cases hWorn : bag.wornAt item subloc with
  | none => exact .inl rfl
  | some location =>
      unfold Bag.wornAt at hWorn
      split at hWorn
      · cases hWorn
      case isFalse hItem =>
        have hHere := List.find?_some hWorn
        have hPlace := List.mem_range.mp (List.mem_of_find?_eq_some hWorn)
        simp only [decide_eq_true_eq] at hHere
        exact .inr ⟨location, hItem, hPlace, hHere.1, rfl⟩

theorem delItem_paperdoll (n : Int) : (bag.delItem item n).paperdoll = bag.paperdoll := by
  unfold Bag.delItem
  split <;> rfl

theorem addItem_paperdoll (n : Int) : (bag.addItem files item n).paperdoll = bag.paperdoll := by
  unfold Bag.addItem
  split
  · rfl
  · split <;> rfl

/-- What is worn does not depend on what is carried. -/
theorem Outfit.carry {bag' : Bag} (h : Outfit files bag) (hWorn : bag'.paperdoll = bag.paperdoll)
    (hStacked : Stacked files bag'.inventory) : Outfit files bag' := by
  have hSame (x : Nat) : bag'.worn x = bag.worn x := by rw [Bag.worn, hWorn, Bag.worn]
  refine ⟨h.toDressed.less (congrArg _ hWorn) fun x => .inl (hSame x), fun x hx => ?_, hStacked⟩
  rw [hSame] at hx ⊢
  exact h.known x hx

theorem Outfit.less {bag' : Bag} (h : Outfit files bag) (hSize : bag'.paperdoll.length = bag.paperdoll.length)
    (hLess : ∀ x, bag'.worn x = bag.worn x ∨ bag'.worn x = 0) (hSame : bag'.inventory = bag.inventory) :
    Outfit files bag' := by
  refine ⟨h.toDressed.less hSize hLess, fun x hx => ?_, hSame ▸ h.stacked⟩
  have hWorn := (hLess x).resolve_right hx
  rw [hWorn] at hx ⊢
  exact h.known x hx

theorem addItem_outfit (h : Outfit files bag) {n : Int} (hn : IsInt n) :
    Outfit files (bag.addItem files item n) :=
  h.carry (addItem_paperdoll n) (addItem_stacked h.stacked hn)

theorem delItem_outfit (h : Outfit files bag) (n : Int) : Outfit files (bag.delItem item n) :=
  h.carry (delItem_paperdoll n) (delItem_stacked h.stacked)

theorem equip_outfit (h : Outfit files bag) {subloc : UInt8}
    (hKnown : (files.eif item).type ≠ .static → 0 < item ∧ item < files.eifSize) :
    Outfit files (equip files wearer item subloc bag).2 := by
  obtain hFailed | ⟨location, -, hMay, hLocation, -, hDone⟩ := equip_cases files wearer item subloc bag
  · rw [hFailed]
    exact h
  · rw [hDone]
    obtain ⟨-, hPlace⟩ := slotType_location hLocation
    have hItem := hKnown fun hStatic => by
      rw [hStatic] at hLocation
      cases hLocation
    refine delItem_outfit ⟨h.toDressed.put hMay hLocation _, fun x hx => ?_, h.stacked⟩ 1
    rw [worn_set item (h.size ▸ hPlace)] at hx ⊢
    split
    · exact hItem
    case isFalse hOther =>
      rw [if_neg hOther] at hx
      exact h.known x hx

theorem unequip_outfit (h : Outfit files bag) (subloc : Nat) :
    Outfit files (unequip files item subloc bag).2 := by
  obtain hFailed | ⟨location, -, hPlace, -, hDone⟩ := unequip_cases files item subloc bag
  · rw [hFailed]
    exact h
  · rw [hDone]
    have hOff : Outfit files { bag with paperdoll := bag.paperdoll.set location 0 } := by
      refine h.less (List.length_set ..) (fun x => ?_) rfl
      rw [worn_set 0 hPlace]
      split
      · exact .inr rfl
      · exact .inl rfl
    exact addItem_outfit hOff (by decide : IsInt 1)

theorem uncurse_outfit (h : Outfit files bag) : Outfit files (uncurse files bag) := by
  refine h.less (List.length_map ..) (fun x => ?_) rfl
  unfold uncurse Bag.worn
  simp only [List.getD_eq_getElem?_getD, List.getElem?_map]
  cases bag.paperdoll[x]? with
  | none => exact .inl rfl
  | some item =>
      simp only [Option.map_some, Option.getD_some]
      split
      · exact .inr rfl
      · exact .inl rfl

theorem equip_moved (h : Outfit files bag) (subloc : UInt8) :
    Moved files item bag (equip files wearer item subloc bag) := by
  obtain hFailed | ⟨location, hHas, -, hLocation, hFree, hDone⟩ := equip_cases files wearer item subloc bag
  · rw [hFailed]
    exact ⟨fun _ => rfl, fun hTrue => absurd hTrue Bool.false_ne_true⟩
  · rw [hDone]
    refine ⟨fun hFalse => absurd hFalse Bool.true_eq_false.mp, fun _ hRoom id hId => ?_⟩
    obtain ⟨-, hPlace⟩ := slotType_location hLocation
    have hWorn := count_set (h.size ▸ hPlace) item id
    have hOn : Stacked files { bag with paperdoll := bag.paperdoll.set location item }.inventory := h.stacked
    have hCarried := delItem_total hOn hRoom hHas id
    rw [hFree, if_neg (Ne.symm hId)] at hWorn
    unfold held
    rw [delItem_paperdoll]
    dsimp only at hCarried ⊢
    omega

theorem unequip_moved (h : Outfit files bag) (subloc : Nat) :
    Moved files item bag (unequip files item subloc bag) := by
  obtain hFailed | ⟨location, hItem, hPlace, hHere, hDone⟩ := unequip_cases files item subloc bag
  · rw [hFailed]
    exact ⟨fun _ => rfl, fun hTrue => absurd hTrue Bool.false_ne_true⟩
  · rw [hDone]
    refine ⟨fun hFalse => absurd hFalse Bool.true_eq_false.mp, fun _ hRoom id hId => ?_⟩
    have hKnown := h.known location (hHere ▸ hItem)
    have hWorn := count_set hPlace 0 id
    have hOff : Stacked files { bag with paperdoll := bag.paperdoll.set location 0 }.inventory := h.stacked
    have hCarried := addItem_total hOff hRoom (hHere ▸ hKnown) id
    rw [hHere, if_neg (Ne.symm hId)] at hWorn
    unfold held
    rw [addItem_paperdoll]
    dsimp only at hCarried ⊢
    omega

end Calls

/-- A character that wears nothing yet, with what the database says it carries. -/
def undressed (parts : List CharacterItem) : Bag := ⟨itemUnserialize parts, List.replicate 15 0⟩

section Runs

variable (file : ItemFile) (cfg : Config) (ecfBase : Int → Int)

theorem undressed_outfit (parts : List CharacterItem) :
    Outfit (file.files cfg ecfBase) (undressed parts) := by
  have hNothing (x : Nat) : (undressed parts).worn x = 0 := by
    unfold Bag.worn undressed
    rw [List.getD_eq_getElem?_getD, List.getElem?_replicate]
    split <;> rfl
  refine ⟨⟨rfl, fun x hx => absurd (hNothing x) hx, fun hx => absurd (hNothing 8) hx⟩,
    fun x hx => absurd (hNothing x) hx, fun item hItem => ?_⟩
  obtain ⟨part, hPart, rfl⟩ := List.mem_map.mp hItem
  have hKept := (List.mem_filter.mp hPart).2
  simp only [decide_eq_true_eq] at hKept
  left
  dsimp only
  omega

/-- Only what is in the item file can be worn. -/
theorem known_of_type {item : Int} (hShort : -2 ^ 15 ≤ item ∧ item < 2 ^ 15)
    (hType : ((file.files cfg ecfBase).eif item).type ≠ .static) :
    0 < item ∧ item < (file.files cfg ecfBase).eifSize := by
  by_contra hUnknown
  have hOutside : item ≤ 0 ∨ (file.records.length + 1 : Nat) ≤ item := by
    by_contra hInside
    exact hUnknown ⟨by omega, Int.not_le.mp fun h => hInside (.inr h)⟩
  refine hType ?_
  change (file.get item).type = .static
  rw [ItemFile.get_unknown hShort hOutside]
  rfl

variable {file cfg ecfBase}

theorem gifts_outfit {files : Files} (gifts : List Gift) {bag : Bag} (h : Outfit files bag) :
    Outfit files (gifts.foldl (Gift.apply files) bag) := by
  induction gifts generalizing bag with
  | nil => exact h
  | cons gift gifts ih =>
      refine ih ?_
      cases gift with
      | give item => exact addItem_outfit h item.isInt
      | take item => exact delItem_outfit h item.amount

theorem act_outfit {bag : Bag} (h : Outfit (file.files cfg ecfBase) bag) (next : Act) :
    Outfit (file.files cfg ecfBase) (act (file.files cfg ecfBase) bag next) := by
  cases next with
  | equip wearer item subloc =>
      refine equip_outfit h (known_of_type file cfg ecfBase ?_)
      unfold toShort
      have hLow := Int.le_bmod (x := item) (m := 2 ^ 16) (by decide)
      have hHigh := Int.bmod_lt (x := item) (m := 2 ^ 16) (by decide)
      omega
  | unequip item subloc => exact unequip_outfit h _
  | cureCurse wearer itemid during =>
      unfold act cureCurse
      dsimp only
      split
      · exact h
      split
      · exact h
      split
      · exact h
      split
      · cases during with
        | none => exact uncurse_outfit h
        | some gifts => exact delItem_outfit (gifts_outfit gifts (uncurse_outfit h)) 1
      · exact h
  | quests gifts => exact gifts_outfit gifts h

theorem acts_outfit (acts : List Act) {bag : Bag} (h : Outfit (file.files cfg ecfBase) bag) :
    Outfit (file.files cfg ecfBase) (acts.foldl (act (file.files cfg ecfBase)) bag) := by
  induction acts generalizing bag with
  | nil => exact h
  | cons next acts ih => exact ih (act_outfit h next)

end Runs

/-- Whatever is put on, taken off and cured, all is worn in its place, two hands hold
one thing, and the next call moves one item or none. -/
theorem equipment_rules (file : ItemFile) (cfg : Config) (ecfBase : Int → Int)
    (parts : List CharacterItem) (acts : List Act) :
    let files := file.files cfg ecfBase
    let bag := acts.foldl (act files) (undressed parts)
    Dressed files bag ∧
      (∀ wearer item subloc, Moved files item bag (equip files wearer item subloc bag)) ∧
        ∀ item subloc, Moved files item bag (unequip files item subloc bag) := by
  intro files bag
  have hOutfit : Outfit files bag := acts_outfit acts (undressed_outfit file cfg ecfBase parts)
  exact ⟨hOutfit.toDressed, fun wearer item subloc => equip_moved hOutfit subloc,
    fun item subloc => unequip_moved hOutfit subloc⟩

/-- Ten items make a stack, and the only item is a ring. -/
def fewRings : Files :=
  ItemFile.files ⟨[⟨.ring, .none, 0, 0, 0, 0, 0, 0, 0, 0, 0, 0⟩], by decide⟩
    { ringFiles.toConfig with maxItem := 10, maxItem_isInt := by decide } fun _ => 0

/-- Twelve rings are carried, one of them is put on and taken off again, and there
are ten. -/
theorem ring_lost_above_limit :
    let bag := act fewRings (undressed [.of 1 12]) (.equip ringBearer 1 0)
    (unequip fewRings 1 0 bag).1 = true ∧ amountOf bag.inventory 1 ≠ fewRings.maxItem ∧
      held 1 bag = 12 ∧ held 1 (unequip fewRings 1 0 bag).2 = 10 := by
  decide

end Etheos.Inventories
