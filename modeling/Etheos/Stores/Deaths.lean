import Etheos.Character.Equipment
import Etheos.Stores.Uids

/-! What characters drop when they die. -/
namespace Etheos.Deaths

open Characters CharacterItem General Stores

structure DeathConfig extends GroundConfig where
  itemType : Int → Inventories.EIFType
  cursed : Int → Bool
  protectPKDrop : Int
  protectDeathDrop : Int

/-- The items on the maps, and what the character wears. -/
structure Remains where
  ground : Ground
  paperdoll : List Int

section DropAll

variable (cfg : DeathConfig) (quests : Checks)

/-- `Character::Unequip`. -/
def unequip (item : Int) (subloc : Nat) : Prog Remains Bool := do
  let s ← get
  if item = 0 then return false
  else
    let worn := fun slot => s.store.paperdoll.getD slot 0 = item ∧ sublocOf slot = subloc
    match (List.range s.store.paperdoll.length).find? worn with
    | none => return false
    | some slot =>
        modify fun s => s.put { s.store with paperdoll := s.store.paperdoll.set slot 0 }
        discard (addItem cfg.toConfig quests item 1)
        calculateStats quests
        return true

variable (player : Int) (killer : Option Int) (now : Int)

/-- The `map_item`, which is the killer's for some time, or the character's own where nobody has killed it. -/
def mapItem (self : Body) (item : CharacterItem) : MapItem :=
  { toCharacterItem := item, uid := 0, x := self.x, y := self.y, owner := killer.getD player
    unprotecttime := now + if killer.isSome then cfg.protectPKDrop else cfg.protectDeathDrop }

/-- `AddItem` of the map, without a character that it is from. -/
def lay (item : CharacterItem) : Prog Remains Unit :=
  modify fun s => s.put { s.store with
    ground := Function.update s.store.ground s.body.mapid
      (Ground.addItemFor cfg.toGroundConfig false (mapItem cfg player killer now s.body item)
        (s.store.ground s.body.mapid)).2 }

/-- The loop over the inventory, of which the first items have been kept. -/
def dropInventory (kept : List CharacterItem) : List CharacterItem → Prog Remains Unit
  | [] => return ()
  | item :: rest =>
      if cfg.lore item.id then dropInventory (kept ++ [item]) rest
      else do
        lay cfg player killer now item
        modify (·.carry (kept ++ rest))
        dropInventory kept rest

/-- The loop over the places of the paperdoll. -/
def dropPaperdoll : List Nat → Prog Remains Unit
  | [] => return ()
  | slot :: slots => do
      let s ← get
      let id := s.store.paperdoll.getD slot 0
      if id = 0 ∨ cfg.lore id ∨ cfg.cursed id then dropPaperdoll slots
      else
        lay cfg player killer now (.of (toShort id) 1)
        discard (unequip cfg quests (toShort id) (sublocOf slot))
        discard (delItem quests (toShort id) 1)
        dropPaperdoll slots

def dropAll : Prog Remains Unit := do
  let s ← get
  if s.body.nointeract then return ()
  else
    dropInventory cfg player killer now [] s.body.inventory
    calculateStats quests
    dropPaperdoll cfg quests player killer now (List.range s.store.paperdoll.length)

end DropAll

/-- A quest check neither throws nor sends the character to another map. -/
def Steady (quests : Checks) : Prop :=
  ∀ n body, (quests n body).2 = false ∧ (quests n body).1.mapid = body.mapid

/-- Nor does it give or take anything. -/
def Quiet (quests : Checks) : Prop :=
  Steady quests ∧ ∀ n body, (quests n body).1.inventory = body.inventory

/-- What there is of an item: carried, worn, and on the map. What quests have given is left out. -/
def present (s : State Remains) (id : Int) : Int :=
  s.own id + s.store.paperdoll.count id + Ground.lying id (s.store.ground s.body.mapid)

/-- Nothing is lost, and nothing is doubled. -/
structure Conserved (s s' : State Remains) : Prop where
  mapid : s'.body.mapid = s.body.mapid
  others : ∀ map, map ≠ s.body.mapid → s'.store.ground map = s.store.ground map
  present : ∀ id, id ≠ 0 → present s' id = present s id
  worn : ∀ id ∈ s'.store.paperdoll, id = 0 ∨ id ∈ s.store.paperdoll

theorem short_of_worn {before after : List Int} (hWorn : ∀ id ∈ after, id = 0 ∨ id ∈ before)
    (hShort : ∀ id ∈ before, toShort id = id) : ∀ id ∈ after, toShort id = id := by
  intro id hId
  rcases hWorn id hId with rfl | hBefore
  · rfl
  · exact hShort id hBefore

theorem Conserved.refl (s : State Remains) : Conserved s s :=
  ⟨rfl, fun _ _ => rfl, fun _ _ => rfl, fun _ h => Or.inr h⟩

theorem Conserved.trans {s s' s'' : State Remains} (h : Conserved s s') (h' : Conserved s' s'') : Conserved s s'' where
  mapid := h'.mapid.trans h.mapid
  others map hMap := by rw [h'.others map (h.mapid ▸ hMap), h.others map hMap]
  present id hId := (h'.present id hId).trans (h.present id hId)
  worn id hWorn := (h'.worn id hWorn).elim Or.inl (h.worn id)

section Laid

variable (cfg : DeathConfig) {quests : Checks} (player : Int) (killer : Option Int) (now : Int)
  {s : State Remains}

/-- The state behind `lay`. -/
def laid (item : CharacterItem) (s : State Remains) : State Remains :=
  s.put { s.store with
    ground := Function.update s.store.ground s.body.mapid
      (Ground.addItemFor cfg.toGroundConfig false (mapItem cfg player killer now s.body item)
        (s.store.ground s.body.mapid)).2 }

theorem lay_eq (item : CharacterItem) (s : State Remains) :
    lay cfg player killer now item s = .ok ⟨⟩ (laid cfg player killer now item s) := rfl

theorem laid_lying (item : CharacterItem) (id : Int) :
    Ground.lying id ((laid cfg player killer now item s).store.ground s.body.mapid) =
      Ground.lying id (s.store.ground s.body.mapid) + if item.id = id then item.amount else 0 := by
  have hHere : (laid cfg player killer now item s).store.ground s.body.mapid = s.store.ground s.body.mapid ++
      [{ mapItem cfg player killer now s.body item with
          uid := toShort (Ground.generateItemID (s.store.ground s.body.mapid)) }] := Function.update_self _ _ _
  rw [hHere, Ground.lying, Entries.sum_append_one, Ground.lying]
  rfl

theorem laid_other (item : CharacterItem) {map : Int} (hMap : map ≠ s.body.mapid) :
    (laid cfg player killer now item s).store.ground map = s.store.ground map :=
  Function.update_of_ne hMap _ _

theorem laid_present (item : CharacterItem) (id : Int) :
    present (laid cfg player killer now item s) id = present s id + if item.id = id then item.amount else 0 := by
  have hLying := laid_lying cfg player killer now (s := s) item id
  have hOwn : (laid cfg player killer now item s).own id = s.own id := rfl
  have hWorn : (laid cfg player killer now item s).store.paperdoll = s.store.paperdoll := rfl
  have hMap : (laid cfg player killer now item s).body.mapid = s.body.mapid := rfl
  unfold present
  rw [hOwn, hWorn, hMap, hLying]
  omega

theorem carry_present (s : State Remains) (inventory : List CharacterItem) (id : Int) :
    present (s.carry inventory) id = present s id + total id inventory - total id s.body.inventory := by
  have hOwn := s.own_carry inventory id
  have hStore : (s.carry inventory).store = s.store := rfl
  have hMap : (s.carry inventory).body.mapid = s.body.mapid := rfl
  unfold present
  rw [hOwn, hStore, hMap]
  omega

/-- An item that is carried is put on the map. -/
theorem conserved_drop {kept rest : List CharacterItem} {item : CharacterItem}
    (hCarried : s.body.inventory = kept ++ item :: rest) :
    Conserved s ((laid cfg player killer now item s).carry (kept ++ rest)) where
  mapid := rfl
  others map hMap := laid_other cfg player killer now item hMap
  present id _ := by
    have hBody : (laid cfg player killer now item s).body.inventory = kept ++ item :: rest := hCarried
    rw [carry_present, laid_present, hBody, total_append, total_append, total]
    omega
  worn id hWorn := Or.inr hWorn

/-- The loop over the inventory. -/
theorem dropInventory_conserved (rest : List CharacterItem) {kept : List CharacterItem}
    (hCarried : s.body.inventory = kept ++ rest) :
    ∃ s', dropInventory cfg player killer now kept rest s = .ok ⟨⟩ s' ∧ Conserved s s' ∧
      s'.body.inventory = kept ++ rest.filter fun item => cfg.lore item.id := by
  induction rest generalizing kept s with
  | nil => exact ⟨s, rfl, .refl s, hCarried⟩
  | cons item rest ih =>
      rw [dropInventory, List.filter_cons]
      by_cases hLore : cfg.lore item.id
      · rw [if_pos hLore, if_pos hLore]
        have hNext := ih (hCarried.trans (List.append_cons kept item rest))
        rwa [← List.append_cons] at hNext
      · rw [if_neg hLore, if_neg hLore]
        obtain ⟨s', hRun, hConserved, hLeft⟩ :=
          ih (s := (laid cfg player killer now item s).carry (kept ++ rest)) rfl
        exact ⟨s', hRun, (conserved_drop cfg player killer now hCarried).trans hConserved, hLeft⟩

end Laid

section Quests

variable {quests : Checks} {s : State Remains}

theorem calculateStats_quiet (hQuiet : Quiet quests) (s : State Remains) :
    calculateStats quests s = .ok ⟨⟩ (s.checked quests) := by
  have hThrows : ¬s.Throws quests := by
    rw [State.Throws, (hQuiet.1 _ _).1]
    exact Bool.false_ne_true
  rw [calculateStats_apply, if_neg hThrows]

theorem checked_inventory (hQuiet : Quiet quests) (s : State Remains) :
    (s.checked quests).body.inventory = s.body.inventory := hQuiet.2 _ _

theorem checked_mapid (hSteady : Steady quests) (s : State Remains) :
    (s.checked quests).body.mapid = s.body.mapid := (hSteady _ _).2

theorem checked_present (hSteady : Steady quests) (s : State Remains) (id : Int) :
    present (s.checked quests) id = present s id := by
  unfold present
  rw [State.own_checked, State.store_checked, checked_mapid hSteady]

theorem conserved_checked (hSteady : Steady quests) (s : State Remains) : Conserved s (s.checked quests) where
  mapid := checked_mapid hSteady s
  others _ _ := rfl
  present id _ := checked_present hSteady s id
  worn _ h := Or.inr h

/-- Only the inventory has changed. -/
structure Carries (s s' : State Remains) : Prop where
  mapid : s'.body.mapid = s.body.mapid
  store : s'.store = s.store
  present : ∀ id, present s' id - total id s'.body.inventory = present s id - total id s.body.inventory

theorem Carries.trans {s s' s'' : State Remains} (h : Carries s s') (h' : Carries s' s'') : Carries s s'' :=
  ⟨h'.mapid.trans h.mapid, h'.store.trans h.store, fun id => (h'.present id).trans (h.present id)⟩

theorem carries_checked (hQuiet : Quiet quests) (s : State Remains) : Carries s (s.checked quests) :=
  ⟨checked_mapid hQuiet.1 s, rfl, fun id => by rw [checked_present hQuiet.1, checked_inventory hQuiet]⟩

theorem carries_carry (s : State Remains) (inventory : List CharacterItem) : Carries s (s.carry inventory) := by
  refine ⟨rfl, rfl, fun id => ?_⟩
  have hInventory : (s.carry inventory).body.inventory = inventory := rfl
  rw [carry_present, hInventory]
  omega

theorem Carries.conserved {s s' : State Remains} (h : Carries s s') (hSame : s'.body.inventory = s.body.inventory) :
    Conserved s s' where
  mapid := h.mapid
  others map _ := by rw [h.store]
  present id _ := by
    have hPresent := h.present id
    rw [hSame] at hPresent
    omega
  worn id hWorn := Or.inr (h.store ▸ hWorn)

/-- The end of `AddItem` and `DelItem`. -/
theorem carried_quiet (hQuiet : Quiet quests) (s : State Remains) (inventory : List CharacterItem) :
    Carries s ((s.carry inventory).checked quests) ∧
      ((s.carry inventory).checked quests).body.inventory = inventory ∧ ¬(s.carry inventory).Throws quests := by
  refine ⟨(carries_carry s inventory).trans (carries_checked hQuiet _), checked_inventory hQuiet _, ?_⟩
  rw [State.Throws, (hQuiet.1 _ _).1]
  exact Bool.false_ne_true

variable {item : Int}

/-- A new stack, if there is such an item. -/
theorem addItem_free (cfg : Stores.Config) (hQuiet : Quiet quests)
    (hFree : s.body.inventory.find? (·.id = item) = none) :
    ∃ added s', addItem cfg quests item 1 s = .ok added s' ∧ Carries s s' ∧
      (s'.body.inventory = s.body.inventory ∨ s'.body.inventory = s.body.inventory ++ [.of item 1]) := by
  rw [addItem_apply]
  cases hReceived : Stores.received cfg s.body.inventory item 1 with
  | none => exact ⟨false, s, rfl, ⟨rfl, rfl, fun _ => rfl⟩, Or.inl rfl⟩
  | some inventory =>
      obtain ⟨hCarries, hInventory, hThrows⟩ := carried_quiet hQuiet s inventory
      dsimp only
      rw [if_neg hThrows]
      refine ⟨true, _, rfl, hCarries, Or.inr ?_⟩
      unfold Stores.received at hReceived
      rw [if_neg (by decide)] at hReceived
      split at hReceived
      · cases hReceived
      · rw [add_of_missing hFree] at hReceived
        rw [hInventory, ← Option.some.inj hReceived]

/-- The stack is taken away again. -/
theorem del_appended {items : List CharacterItem} (hFree : items.find? (·.id = item) = none) :
    del item 1 (items ++ [.of item 1]) = some items := by
  induction items with
  | nil =>
      rw [List.nil_append, del, of_id, if_pos rfl, of_amount, (by decide : IsInt 1).toInt_eq, if_pos (by decide)]
  | cons first items ih =>
      rw [Entries.find_cons] at hFree
      split at hFree
      · cases hFree
      case isFalse hOther =>
        rw [List.cons_append, del, if_neg (by simpa using hOther), ih hFree, Option.map_some]

theorem delItem_free (hQuiet : Quiet quests) {items : List CharacterItem} (hFree : items.find? (·.id = item) = none)
    (hInventory : s.body.inventory = items ∨ s.body.inventory = items ++ [.of item 1]) :
    ∃ removed s', delItem quests item 1 s = .ok removed s' ∧ Carries s s' ∧ s'.body.inventory = items := by
  rw [delItem_apply, surrendered, if_neg (by decide)]
  rcases hInventory with hSame | hMore
  · rw [hSame, del_of_missing hFree]
    exact ⟨false, s, rfl, ⟨rfl, rfl, fun _ => rfl⟩, hSame⟩
  · obtain ⟨hCarries, hItems, hThrows⟩ := carried_quiet hQuiet s items
    rw [hMore, del_appended hFree]
    dsimp only
    rw [if_neg hThrows]
    exact ⟨true, _, rfl, hCarries, hItems⟩

end Quests

section Slots

variable (cfg : DeathConfig) {quests : Checks} (player : Int) (killer : Option Int) (now : Int)
  {s : State Remains} {id : Int} {slot : Nat}

/-- The item is worn in some place of this kind. -/
def wornPlace (s : State Remains) (id : Int) (subloc : Nat) : Option Nat :=
  (List.range s.store.paperdoll.length).find? fun slot => s.store.paperdoll.getD slot 0 = id ∧ sublocOf slot = subloc

/-- The state without what is worn there. -/
def bared (slot : Nat) (s : State Remains) : State Remains :=
  s.put { s.store with paperdoll := s.store.paperdoll.set slot 0 }

theorem slot_lt (hWorn : s.store.paperdoll.getD slot 0 = id) (hId : id ≠ 0) : slot < s.store.paperdoll.length := by
  by_contra hOut
  rw [List.getD_eq_getElem?_getD, List.getElem?_eq_none (Nat.le_of_not_lt hOut)] at hWorn
  exact hId hWorn.symm

theorem worn_mem (hWorn : s.store.paperdoll.getD slot 0 = id) (hId : id ≠ 0) : id ∈ s.store.paperdoll := by
  have hSlot := slot_lt hWorn hId
  rw [List.getD_eq_getElem?_getD, List.getElem?_eq_getElem hSlot, Option.getD_some] at hWorn
  exact hWorn ▸ List.getElem_mem hSlot

theorem wornPlace_isSome (hWorn : s.store.paperdoll.getD slot 0 = id) (hId : id ≠ 0) :
    ∃ place, wornPlace s id (sublocOf slot) = some place := by
  have hSlot := List.mem_range.mpr (slot_lt hWorn hId)
  exact Option.isSome_iff_exists.mp (List.find?_isSome.mpr ⟨slot, hSlot, decide_eq_true ⟨hWorn, rfl⟩⟩)

theorem bared_present {subloc place : Nat} (hPlace : wornPlace s id subloc = some place) {other : Int}
    (hOther : other ≠ 0) : present (bared place s) other = present s other - if id = other then 1 else 0 := by
  have hHere := List.find?_some hPlace
  have hRange := List.mem_range.mp (List.mem_of_find?_eq_some hPlace)
  simp only [decide_eq_true_eq] at hHere
  have hCount := Inventories.count_set
    (show place < (Inventories.Bag.mk [] s.store.paperdoll).paperdoll.length from hRange) 0 other
  have hTaken : Inventories.Bag.worn place ⟨[], s.store.paperdoll⟩ = id := hHere.1
  rw [hTaken, if_neg (Ne.symm hOther)] at hCount
  have hWorn : (bared place s).store.paperdoll = s.store.paperdoll.set place 0 := rfl
  have hGround : (bared place s).store.ground = s.store.ground := rfl
  have hOwn : (bared place s).own other = s.own other := rfl
  have hMap : (bared place s).body.mapid = s.body.mapid := rfl
  unfold present
  rw [hOwn, hWorn, hGround, hMap]
  dsimp only at hCount
  omega

theorem bared_worn {place : Nat} (other : Int) (hOther : other ∈ (bared place s).store.paperdoll) :
    other = 0 ∨ other ∈ s.store.paperdoll :=
  (List.mem_or_eq_of_mem_set hOther).symm

theorem discard_of_ok {σ α : Type} {x : EStateM Unit σ α} {s s' : σ} {a : α} (h : x s = .ok a s') :
    (discard x : EStateM Unit σ Unit) s = .ok ⟨⟩ s' :=
  bind_of_ok h

theorem unequip_nothing (subloc : Nat) : unequip cfg quests 0 subloc s = .ok false s := rfl

theorem unequip_of_missing {subloc : Nat} (hPlace : wornPlace s id subloc = none) :
    unequip cfg quests id subloc s = .ok false s := by
  unfold wornPlace at hPlace
  change (if id = 0 then _ else _ : Prog Remains Bool) s = _
  split
  · rfl
  · dsimp only
    rw [hPlace]
    rfl

theorem unequip_of_worn {subloc place : Nat} (hId : id ≠ 0) (hPlace : wornPlace s id subloc = some place) :
    unequip cfg quests id subloc s =
      (do
        discard (addItem cfg.toConfig quests id 1)
        calculateStats quests
        return true : Prog Remains Bool) (bared place s) := by
  unfold wornPlace at hPlace
  change (if id = 0 then _ else _ : Prog Remains Bool) s = _
  rw [if_neg hId]
  dsimp only
  rw [hPlace]
  rfl

/-- What is taken off is carried, and given away. -/
theorem takeOff (hQuiet : Quiet quests) (hId : id ≠ 0) (hWorn : s.store.paperdoll.getD slot 0 = id)
    (hFree : s.body.inventory.find? (·.id = id) = none) :
    ∃ place s' s'', wornPlace s id (sublocOf slot) = some place ∧
      (discard (unequip cfg quests id (sublocOf slot)) : Prog Remains Unit) s = .ok ⟨⟩ s' ∧
      (discard (delItem quests id 1) : Prog Remains Unit) s' = .ok ⟨⟩ s'' ∧
      Carries (bared place s) s'' ∧ s''.body.inventory = s.body.inventory := by
  obtain ⟨place, hPlace⟩ := wornPlace_isSome hWorn hId
  obtain ⟨added, s1, hAdd, hCarries, hInventory⟩ :=
    addItem_free (s := bared place s) cfg.toConfig hQuiet hFree
  have hStats := calculateStats_quiet hQuiet s1
  obtain ⟨removed, s2, hDel, hGone, hLeft⟩ := delItem_free (s := s1.checked quests) hQuiet hFree
    (by rw [checked_inventory hQuiet]; exact hInventory)
  have hOff : unequip cfg quests id (sublocOf slot) s = .ok true (s1.checked quests) := by
    rw [unequip_of_worn cfg hId hPlace, bind_of_ok (discard_of_ok hAdd), bind_of_ok hStats]
    rfl
  exact ⟨place, s1.checked quests, s2, hPlace, discard_of_ok hOff, discard_of_ok hDel,
    (hCarries.trans (carries_checked hQuiet s1)).trans hGone, hLeft⟩

/-- What is worn in one place is put on the map. -/
theorem conserved_takeOff {s' : State Remains} {place subloc : Nat}
    (hPlace : wornPlace (laid cfg player killer now (.of id 1) s) id subloc = some place)
    (hCarries : Carries (bared place (laid cfg player killer now (.of id 1) s)) s')
    (hSame : s'.body.inventory = s.body.inventory) : Conserved s s' where
  mapid := hCarries.mapid
  others map hMap := by
    rw [hCarries.store]
    exact laid_other cfg player killer now _ hMap
  present other hOther := by
    have hKept := (hCarries.conserved hSame).present other hOther
    rw [hKept, bared_present hPlace hOther, laid_present, of_id, of_amount, (by decide : IsInt 1).toInt_eq]
    omega
  worn other hWorn := by
    rw [hCarries.store] at hWorn
    exact bared_worn other hWorn

/-- The loop over the paperdoll. -/
theorem dropPaperdoll_conserved (hQuiet : Quiet quests) (slots : List Nat)
    (hShort : ∀ id ∈ s.store.paperdoll, toShort id = id) (hLore : ∀ item ∈ s.body.inventory, cfg.lore item.id) :
    ∃ s', dropPaperdoll cfg quests player killer now slots s = .ok ⟨⟩ s' ∧ Conserved s s' ∧
      s'.body.inventory = s.body.inventory := by
  induction slots generalizing s with
  | nil => exact ⟨s, rfl, .refl s, rfl⟩
  | cons slot slots ih =>
      obtain ⟨id, hWorn⟩ : ∃ id, s.store.paperdoll.getD slot 0 = id := ⟨_, rfl⟩
      by_cases hKept : id = 0 ∨ cfg.lore id ∨ cfg.cursed id
      · obtain ⟨s', hRun, hRest⟩ := ih hShort hLore
        refine ⟨s', ?_, hRest⟩
        change (if _ then _ else _ : Prog Remains Unit) s = _
        rw [hWorn, if_pos hKept, hRun]
      · obtain ⟨hId, hPlain, -⟩ := not_or.mp hKept |>.imp_right not_or.mp
        have hExact : toShort id = id := hShort id (worn_mem hWorn hId)
        have hFree : s.body.inventory.find? (·.id = id) = none :=
          List.find?_eq_none.mpr fun item hItem hSame => hPlain (of_decide_eq_true hSame ▸ hLore item hItem)
        obtain ⟨place, s0, s1, hPlace, hOff, hGone, hCarries, hSame⟩ :=
          takeOff (s := laid cfg player killer now (.of id 1) s) cfg hQuiet hId hWorn hFree
        have hStep := conserved_takeOff cfg player killer now hPlace hCarries hSame
        obtain ⟨s', hRun, hRest, hLeft⟩ :=
          ih (s := s1) (short_of_worn hStep.worn hShort) (by rw [hSame]; exact hLore)
        refine ⟨s', ?_, hStep.trans hRest, hLeft.trans hSame⟩
        change (if _ then _ else _ : Prog Remains Unit) s = _
        rw [hWorn, if_neg hKept, hExact, bind_of_ok (lay_eq cfg player killer now (.of id 1) s),
          bind_of_ok hOff, bind_of_ok hGone, hRun]

/-- Nothing is lost or doubled when a character dies, as long as no quest comes in between. -/
theorem dropAll_conserved (hQuiet : Quiet quests) (hShort : ∀ id ∈ s.store.paperdoll, toShort id = id) :
    Conserved s (final (dropAll cfg quests player killer now) s) := by
  obtain ⟨s1, hDrop, hFirst, hInventory⟩ :=
    dropInventory_conserved cfg player killer now s.body.inventory (s := s) (List.nil_append _).symm
  have hChecked := conserved_checked hQuiet.1 s1
  have hLore : ∀ item ∈ (s1.checked quests).body.inventory, cfg.lore item.id := by
    rw [checked_inventory hQuiet, hInventory]
    intro item hItem
    exact (List.mem_filter.mp hItem).2
  obtain ⟨s2, hWorn, hSecond, -⟩ := dropPaperdoll_conserved cfg player killer now hQuiet
    (s := s1.checked quests) (List.range s.store.paperdoll.length) (short_of_worn hFirst.worn hShort) hLore
  unfold dropAll
  rw [final_read]
  split
  · exact .refl s
  · rw [final_bind_of_ok hDrop, final_bind_of_ok (calculateStats_quiet hQuiet s1), final_of_ok hWorn]
    exact (hFirst.trans hChecked).trans hSecond

end Slots

end Etheos.Deaths
