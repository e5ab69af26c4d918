import Etheos.Character.Items

/-! What a character carries, beside a store that items are moved from and to. -/
namespace Etheos.Stores

open Characters CharacterItem General

/-- The kinds of characters that are spoken to and that matter here. -/
inductive NpcType
  | npc | bank | law | barber | inn | skills | guild | shop
  deriving Repr, DecidableEq

/-- What a character is like, as far as services depend on it or change it. -/
structure Traits where
  level : Int
  clas : Int
  displayStr : Int
  displayIntl : Int
  displayWis : Int
  displayAgi : Int
  displayCon : Int
  displayCha : Int
  hp : Int
  maxhp : Int
  tp : Int
  maxtp : Int
  spells : List Int
  fiance : String
  partner : String
  hairstyle : Int
  haircolor : Int
  jukeboxOpen : Bool
  deriving DecidableEq

/-- The parts of a character that a quest check may change. -/
structure Body where
  inventory : List CharacterItem
  trading : Bool
  tradeInventory : List CharacterItem
  /-- The flag `NoInteractItems`. -/
  nointeract : Bool
  npcType : NpcType
  mapid : Int
  x : Int
  y : Int
  weight : Int
  maxweight : Int
  traits : Traits
  deriving DecidableEq

/-- `store` is what a quest check does not change, `checks` the number of checks
so far. The program does not add up in `given` what the checks put into the
inventory, less what they take out of it. -/
structure State (ρ : Type) where
  body : Body
  store : ρ
  checks : Nat
  given : Int → Int

/-- A quest check leaves the character in some state, and it may throw. There is
one for each number of checks before it. -/
abbrev Checks := Nat → Body → Body × Bool

abbrev Prog (ρ : Type) := EStateM Unit (State ρ)

/-- The configuration and the data files, as far as they matter to the inventory. -/
structure Config where
  eifSize : Nat
  maxItem : Int
  maxItem_isInt : IsInt maxItem
  enforceWeight : Int
  unlimitedWeight : Bool
  itemWeight : Int → Nat

variable {ρ : Type}

namespace State

def carry (s : State ρ) (inventory : List CharacterItem) : State ρ :=
  { s with body := { s.body with inventory := inventory } }

def put (s : State ρ) (store : ρ) : State ρ := { s with store := store }

/-- The character behind the next quest check. -/
def checked (quests : Checks) (s : State ρ) : State ρ :=
  { s with
    body := (quests s.checks s.body).1
    checks := s.checks + 1
    given := fun id =>
      s.given id + total id (quests s.checks s.body).1.inventory - total id s.body.inventory }

/-- The next quest check throws. -/
def Throws (quests : Checks) (s : State ρ) : Prop := (quests s.checks s.body).2 = true

instance (quests : Checks) (s : State ρ) : Decidable (s.Throws quests) :=
  inferInstanceAs (Decidable (_ = true))

/-- What is carried of an item, without what has come from quests. -/
def own (s : State ρ) (id : Int) : Int := total id s.body.inventory - s.given id

/-- A quest check does not count as a loss or a gain. -/
@[simp] theorem own_checked (quests : Checks) (s : State ρ) (id : Int) :
    (s.checked quests).own id = s.own id := by
  unfold own checked
  simp only
  omega

@[simp] theorem store_checked (quests : Checks) (s : State ρ) :
    (s.checked quests).store = s.store := rfl

@[simp] theorem store_carry (s : State ρ) (inventory : List CharacterItem) :
    (s.carry inventory).store = s.store := rfl

@[simp] theorem own_put (s : State ρ) (store : ρ) (id : Int) : (s.put store).own id = s.own id := rfl

@[simp] theorem store_put (s : State ρ) (store : ρ) : (s.put store).store = store := rfl

@[simp] theorem body_put (s : State ρ) (store : ρ) : (s.put store).body = s.body := rfl

theorem own_carry (s : State ρ) (inventory : List CharacterItem) (id : Int) :
    (s.carry inventory).own id = s.own id + total id inventory - total id s.body.inventory := by
  unfold own carry
  simp only
  omega

end State

def hasItem (self : Body) (item : Int) (includeTrade : Bool) : Int :=
  match self.inventory.find? (·.id = item) with
  | none => 0
  | some it =>
      if self.trading ∧ ¬includeTrade then
        match self.tradeInventory.find? (·.id = item) with
        | some tradeItem => max (it.amount - tradeItem.amount) 0
        | none => it.amount
      else it.amount

def canHoldItem (cfg : Config) (self : Body) (itemid maxAmount : Int) : Int :=
  let amount :=
    if 2 ≤ cfg.enforceWeight ∧ ¬cfg.unlimitedWeight then
      if self.maxweight < self.weight then 0
      else if cfg.itemWeight itemid = 0 then maxAmount
      else min ((self.maxweight - self.weight).tdiv (cfg.itemWeight itemid)) maxAmount
    else maxAmount
  min amount cfg.maxItem

/-- `util::path_length`. -/
def pathLength (x1 y1 x2 y2 : Int) : Int := (x1 - x2).natAbs + (y1 - y2).natAbs

/-- Outside a trade, the first entry counts. -/
theorem hasItem_eq_amountOf {self : Body} (h : self.trading = false) (item : Int)
    (includeTrade : Bool) : hasItem self item includeTrade = amountOf self.inventory item := by
  unfold hasItem amountOf
  cases self.inventory.find? (·.id = item) with
  | none => rfl
  | some it => simp [h]

/-- What is held is some of what there is. -/
theorem canHoldItem_le {cfg : Config} {self : Body} {itemid maxAmount : Int}
    (h : 0 < canHoldItem cfg self itemid maxAmount) :
    canHoldItem cfg self itemid maxAmount ≤ maxAmount := by
  unfold canHoldItem at *
  dsimp only at *
  split at h
  · split at h
    · omega
    · split at h
      · omega
      · omega
  · omega

section Functions

variable (cfg : Config) (quests : Checks)

/-- Of `CalculateStats` only the quest check matters here. -/
def calculateStats : Prog ρ Unit := do
  let s ← get
  set (s.checked quests)
  if s.Throws quests then throw () else return ()

def addItem (item amount : Int) : Prog ρ Bool := do
  let s ← get
  if amount ≤ 0 then return false
  else if item ≤ 0 ∨ cfg.eifSize ≤ item then return false
  else
    match add cfg.maxItem item amount s.body.inventory with
    | none => return false
    | some inventory =>
        modify (·.carry inventory)
        calculateStats quests
        return true

def delItem (item amount : Int) : Prog ρ Bool := do
  let s ← get
  if amount ≤ 0 then return false
  else
    match del item amount s.body.inventory with
    | none => return false
    | some inventory =>
        modify (·.carry inventory)
        calculateStats quests
        return true

end Functions

/-- The inventory behind `AddItem`, if the item is taken. -/
def received (cfg : Config) (items : List CharacterItem) (item amount : Int) :
    Option (List CharacterItem) :=
  if amount ≤ 0 then none
  else if item ≤ 0 ∨ cfg.eifSize ≤ item then none
  else add cfg.maxItem item amount items

/-- The inventory behind `DelItem`, if the item is there. -/
def surrendered (items : List CharacterItem) (item amount : Int) : Option (List CharacterItem) :=
  if amount ≤ 0 then none else del item amount items

section Final

variable {α β : Type} {cfg : Config} {quests : Checks} {s : State ρ}

theorem calculateStats_apply :
    calculateStats quests s =
      if s.Throws quests then .error () (s.checked quests) else .ok () (s.checked quests) := by
  change (if _ then throw () else return () : Prog ρ Unit) (s.checked quests) = _
  split
  · rfl
  · rfl

/-- A program ends where its first part throws, or where the rest of it ends. -/
theorem final_bind_ite {x : Prog ρ β} {f : β → Prog ρ α} {c : Prop} [Decidable c] {b : β}
    {s' : State ρ} (h : x s = if c then .error () s' else .ok b s') :
    final (x >>= f) s = if c then s' else final (f b) s' := by
  split
  case isTrue hc =>
    rw [if_pos hc] at h
    exact final_bind_of_error h
  case isFalse hc =>
    rw [if_neg hc] at h
    exact final_bind_of_ok h

theorem calculateStats_final (f : Unit → Prog ρ α) :
    final (calculateStats quests >>= f) s =
      if s.Throws quests then s.checked quests else final (f ()) (s.checked quests) :=
  final_bind_ite calculateStats_apply

/-- The common end of `AddItem` and `DelItem`. -/
theorem carry_apply (inventory : List CharacterItem) :
    (do modify (·.carry inventory); calculateStats quests; return true : Prog ρ Bool) s =
      if (s.carry inventory).Throws quests then .error () ((s.carry inventory).checked quests)
      else .ok true ((s.carry inventory).checked quests) := by
  change (calculateStats quests >>= fun _ => pure true) (s.carry inventory) = _
  by_cases h : (s.carry inventory).Throws quests
  · rw [if_pos h, bind_of_error (calculateStats_apply.trans (if_pos h))]
  · rw [if_neg h, bind_of_ok (calculateStats_apply.trans (if_neg h))]
    rfl

theorem addItem_apply (item amount : Int) :
    addItem cfg quests item amount s =
      match received cfg s.body.inventory item amount with
      | none => .ok false s
      | some inventory =>
          if (s.carry inventory).Throws quests then .error () ((s.carry inventory).checked quests)
          else .ok true ((s.carry inventory).checked quests) := by
  change (if _ then _ else if _ then _ else _ : Prog ρ Bool) s = _
  unfold received
  split
  · rfl
  · split
    · rfl
    · cases add cfg.maxItem item amount s.body.inventory with
      | none => rfl
      | some inventory => exact carry_apply inventory

theorem delItem_apply (item amount : Int) :
    delItem quests item amount s =
      match surrendered s.body.inventory item amount with
      | none => .ok false s
      | some inventory =>
          if (s.carry inventory).Throws quests then .error () ((s.carry inventory).checked quests)
          else .ok true ((s.carry inventory).checked quests) := by
  change (if _ then _ else _ : Prog ρ Bool) s = _
  unfold surrendered
  split
  · rfl
  · cases del item amount s.body.inventory with
    | none => rfl
    | some inventory => exact carry_apply inventory

/-- `AddItem` with its result ignored, and what follows it. -/
theorem addItem_final (item amount : Int) (f : Prog ρ α) :
    final (discard (addItem cfg quests item amount) >>= fun _ => f) s =
      match received cfg s.body.inventory item amount with
      | none => final f s
      | some inventory =>
          if (s.carry inventory).Throws quests then (s.carry inventory).checked quests
          else final f ((s.carry inventory).checked quests) := by
  rw [final_discard_bind]
  have hApply : addItem cfg quests item amount s = _ := addItem_apply item amount
  cases h : received cfg s.body.inventory item amount with
  | none =>
      rw [h] at hApply
      exact final_bind_of_ok hApply
  | some inventory =>
      rw [h] at hApply
      exact final_bind_ite hApply

/-- `DelItem` with its result ignored, and what follows it. -/
theorem delItem_final (item amount : Int) (f : Prog ρ α) :
    final (discard (delItem quests item amount) >>= fun _ => f) s =
      match surrendered s.body.inventory item amount with
      | none => final f s
      | some inventory =>
          if (s.carry inventory).Throws quests then (s.carry inventory).checked quests
          else final f ((s.carry inventory).checked quests) := by
  rw [final_discard_bind]
  have hApply : delItem quests item amount s = _ := delItem_apply item amount
  cases h : surrendered s.body.inventory item amount with
  | none =>
      rw [h] at hApply
      exact final_bind_of_ok hApply
  | some inventory =>
      rw [h] at hApply
      exact final_bind_ite hApply

theorem calculateStats_last : final (calculateStats quests) s = s.checked quests := by
  rw [final, calculateStats_apply]
  by_cases h : s.Throws quests
  · rw [if_pos h]
  · rw [if_neg h]

theorem addItem_last (item amount : Int) :
    final (discard (addItem cfg quests item amount)) s =
      match received cfg s.body.inventory item amount with
      | none => s
      | some inventory => (s.carry inventory).checked quests := by
  rw [final_discard, final, addItem_apply]
  cases received cfg s.body.inventory item amount with
  | none => rfl
  | some inventory => by_cases h : (s.carry inventory).Throws quests <;> simp [h]

theorem delItem_last (item amount : Int) :
    final (discard (delItem quests item amount)) s =
      match surrendered s.body.inventory item amount with
      | none => s
      | some inventory => (s.carry inventory).checked quests := by
  rw [final_discard, final, delItem_apply]
  cases surrendered s.body.inventory item amount with
  | none => rfl
  | some inventory => by_cases h : (s.carry inventory).Throws quests <;> simp [h]

end Final

section Amounts

variable {cfg : Config} {items inventory : List CharacterItem} {id n : Int}

/-- The character has no entry for the item yet, or there is room in it. -/
def Fits (cfg : Config) (items : List CharacterItem) (id n : Int) : Prop :=
  0 < id ∧ id < cfg.eifSize ∧
    ∀ item, items.find? (·.id = id) = some item →
      0 ≤ item.amount + n ∧ item.amount + n ≤ cfg.maxItem

/-- The stack is full, and what is added to it is lost. -/
def Full (cfg : Config) (items : List CharacterItem) (id n : Int) : Prop :=
  0 < id ∧ id < cfg.eifSize ∧
    ∃ item, items.find? (·.id = id) = some item ∧ item.amount = cfg.maxItem ∧
      0 ≤ toInt (item.amount + n)

/-- The item is not in the item file, or the sum runs over. -/
def Refused (cfg : Config) (items : List CharacterItem) (id n : Int) : Prop :=
  id ≤ 0 ∨ cfg.eifSize ≤ id ∨
    ∃ item, items.find? (·.id = id) = some item ∧ toInt (item.amount + n) < 0

theorem received_pos (h : received cfg items id n = some inventory) : 0 < n := by
  unfold received at h
  split at h
  · cases h
  · omega

theorem received_eq_none_iff (hPos : 0 < n) :
    received cfg items id n = none ↔ Refused cfg items id n := by
  unfold received Refused
  rw [if_neg (by omega)]
  split
  case isTrue hBad =>
    exact iff_of_true rfl (by omega)
  case isFalse hGood =>
    cases hFound : items.find? (·.id = id) with
    | none =>
        rw [add_of_missing hFound]
        simp
        omega
    | some item =>
        rw [add_of_found hFound]
        simp
        omega

/-- Exactly what is given arrives where it fits. -/
theorem received_total (hn : IsInt n) (hPos : 0 < n) (h : received cfg items id n = some inventory) :
    (∀ x, x ≠ id → total x inventory = total x items) ∧
      (total id inventory = total id items + n ↔ Fits cfg items id n) ∧
        (total id inventory = total id items ↔ Full cfg items id n) := by
  unfold received at h
  rw [if_neg (by omega)] at h
  split at h
  · cases h
  case isFalse hKnown =>
    cases hFound : items.find? (·.id = id) with
    | none =>
        rw [add_of_missing hFound] at h
        cases h
        have hNew (x : Int) : total x (items ++ [of id n]) = total x items + if id = x then n else 0 := by
          rw [total_append, total, total, of_id, of_amount, hn.toInt_eq, Int.add_zero]
        refine ⟨fun x hx => ?_, ?_, ?_⟩
        · rw [hNew, if_neg (Ne.symm hx), Int.add_zero]
        · rw [hNew, if_pos rfl]
          refine iff_of_true rfl ⟨by omega, by omega, fun item hItem => ?_⟩
          rw [hFound] at hItem
          cases hItem
        · rw [hNew, if_pos rfl]
          refine iff_of_false (by omega) fun hFull => ?_
          obtain ⟨-, -, item, hItem, -⟩ := hFull
          rw [hFound] at hItem
          cases hItem
    | some item =>
        rw [add_of_found hFound] at h
        split at h
        · cases h
        case isFalse hSum =>
          cases h
          have hExact : toInt (item.amount + n) = item.amount + n :=
            toInt_add item.isInt hn hPos (by omega)
          have hCut : toInt (min (toInt (item.amount + n)) cfg.maxItem) =
              min (item.amount + n) cfg.maxItem := by
            have hSumInt := isInt_toInt (item.amount + n)
            have hMaxInt := cfg.maxItem_isInt
            rw [IsInt.toInt_eq, hExact]
            unfold IsInt at *
            omega
          have hTotal (x : Int) := total_change hFound (fun old => min (toInt (old + n)) cfg.maxItem) x
          simp only [hCut] at hTotal
          refine ⟨fun x hx => ?_, ?_, ?_⟩
          · rw [hTotal, if_neg hx, Int.add_zero]
          · rw [hTotal, if_pos rfl, Fits, hFound]
            simp only [Option.some.injEq, forall_eq']
            omega
          · rw [hTotal, if_pos rfl, Full, hFound]
            simp only [Option.some.injEq, exists_eq_left']
            omega

theorem Refused.not_fits (h : Refused cfg items id n) : ¬Fits cfg items id n := by
  intro ⟨hLow, hHigh, hRoom⟩
  obtain hBad | hBad | ⟨item, hFound, hSum⟩ := h
  · omega
  · omega
  · obtain ⟨hNonneg, hMax⟩ := hRoom item hFound
    have hMaxInt := cfg.maxItem_isInt
    rw [IsInt.toInt_eq] at hSum
    · omega
    · unfold IsInt at *
      omega

theorem surrendered_total (hEnough : n ≤ amountOf items id)
    (h : surrendered items id n = some inventory) (x : Int) :
    total x inventory = total x items - if x = id then n else 0 := by
  unfold surrendered at h
  split at h
  · cases h
  · obtain ⟨-, hOwn, hOther⟩ := del_cases (by omega) h
    split
    case isTrue hx =>
      subst hx
      exact hOwn hEnough
    case isFalse hx => rw [(hOther x hx).2, Int.sub_zero]

/-- A stack that is too small is taken away all the same. -/
theorem surrendered_least (h : surrendered items id n = some inventory) :
    total id inventory = total id items - min n (amountOf items id) := by
  unfold surrendered at h
  split at h
  · cases h
  case isFalse hPos =>
    induction items generalizing inventory with
    | nil => cases h
    | cons first items ih =>
        unfold del at h
        rw [amountOf_cons]
        split at h
        case isTrue hId =>
          rw [if_pos hId]
          split at h
          · cases h
            rw [total, if_pos hId]
            omega
          · cases h
            have hFirst := first.isInt
            rw [total, total, of_id, of_amount, if_pos rfl, if_pos hId, IsInt.toInt_eq]
            · omega
            · unfold IsInt at *
              omega
        case isFalse hId =>
          obtain ⟨rest, hRest, rfl⟩ := Option.map_eq_some_iff.mp h
          rw [if_neg hId, total, total, ih hRest]
          omega

theorem surrendered_pos (h : surrendered items id n = some inventory) : 0 < n := by
  unfold surrendered at h
  split at h
  · cases h
  · omega

theorem surrendered_isSome (hPos : 0 < n) (hEnough : n ≤ amountOf items id) :
    ∃ inventory, surrendered items id n = some inventory := by
  unfold surrendered
  rw [if_neg (by omega)]
  exact Option.isSome_iff_exists.mp (del_isSome hPos hEnough)

end Amounts

section Spec

variable (cfg : Config) (quests : Checks) (s : State ρ) {id n : Int}

/-- Where an item is given at the end, all of it arrives exactly if it fits. -/
theorem addItem_own (hn : IsInt n) (hPos : 0 < n) :
    (∀ x, x ≠ id → (final (discard (addItem cfg quests id n)) s).own x = s.own x) ∧
      ((final (discard (addItem cfg quests id n)) s).own id = s.own id + n ↔
        Fits cfg s.body.inventory id n) ∧
      (final (discard (addItem cfg quests id n)) s).store = s.store := by
  rw [addItem_last]
  cases hReceived : received cfg s.body.inventory id n with
  | none =>
      dsimp only
      have hRefused := (received_eq_none_iff hPos).mp hReceived
      exact ⟨fun _ _ => rfl, iff_of_false (by omega) hRefused.not_fits, rfl⟩
  | some inventory =>
      obtain ⟨hOthers, hFits, -⟩ := received_total hn hPos hReceived
      refine ⟨fun x hx => ?_, ?_, rfl⟩
      · rw [State.own_checked, State.own_carry, hOthers x hx]
        omega
      · rw [State.own_checked, State.own_carry, ← hFits]
        omega

/-- Where as much is carried, exactly what is taken away is gone. -/
theorem delItem_own (hPos : 0 < n) (hEnough : n ≤ amountOf s.body.inventory id) (x : Int) :
    (final (discard (delItem quests id n)) s).own x = s.own x - if x = id then n else 0 := by
  obtain ⟨inventory, hSurrendered⟩ := surrendered_isSome hPos hEnough
  rw [delItem_last, hSurrendered]
  dsimp only
  rw [State.own_checked, State.own_carry, surrendered_total hEnough hSurrendered]
  omega

theorem addItem_store (n : Int) : (final (discard (addItem cfg quests id n)) s).store = s.store := by
  rw [addItem_last]
  cases received cfg s.body.inventory id n with
  | none => rfl
  | some inventory => rfl

theorem delItem_store (n : Int) : (final (discard (delItem quests id n)) s).store = s.store := by
  rw [delItem_last]
  cases surrendered s.body.inventory id n with
  | none => rfl
  | some inventory => rfl

theorem delItem_nothing (h : n ≤ 0) : final (discard (delItem quests id n)) s = s := by
  rw [delItem_last, surrendered, if_pos h]

end Spec

section Sample

/-- No quest is active. -/
def idle : Checks := fun _ body => (body, false)

/-- Nine items, and stacks of at most a hundred. -/
def smallWorld : Config where
  eifSize := 10
  maxItem := 100
  maxItem_isInt := by decide
  enforceWeight := 0
  unlimitedWeight := false
  itemWeight := fun _ => 0

def plain : Traits where
  level := 1
  clas := 1
  displayStr := 0
  displayIntl := 0
  displayWis := 0
  displayAgi := 0
  displayCon := 0
  displayCha := 0
  hp := 10
  maxhp := 10
  tp := 10
  maxtp := 10
  spells := []
  fiance := ""
  partner := ""
  hairstyle := 0
  haircolor := 0
  jukeboxOpen := false

def holding (npcType : NpcType) (inventory : List CharacterItem) : Body where
  inventory := inventory
  trading := false
  tradeInventory := []
  nointeract := false
  npcType := npcType
  mapid := 1
  x := 5
  y := 5
  weight := 0
  maxweight := 70
  traits := plain

/-- Someone next to a store, and nothing has been given by a quest. -/
def beside (body : Body) (store : ρ) : State ρ := ⟨body, store, 0, fun _ => 0⟩

end Sample

end Etheos.Stores
