import Etheos.Stores.Carried

/-! The locker in the bank. -/
namespace Etheos.Stores

open Characters CharacterItem General

/-- The list `bank` and the number of upgrades. -/
structure Locker where
  items : List CharacterItem
  bankmax : Int
  deriving DecidableEq

/-- `it->amount += amount`. -/
def Locker.grow (store : Locker) (item amount : Int) : Locker :=
  { store with items := change item (· + amount) store.items }

/-- `bank.push_back`. -/
def Locker.start (store : Locker) (item amount : Int) : Locker :=
  { store with items := store.items ++ [.of item amount] }

structure LockerConfig extends Config where
  baseBankSize : Int
  bankSizeStep : Int
  maxBank : Int
  maxBank_isInt : IsInt maxBank
  /-- A `BankVault` on the map. -/
  bankVault : Int → Int → Int → Bool

/-- The number of stacks that a locker has room for, as a `size_t`. -/
def LockerConfig.lockermax (cfg : LockerConfig) (bankmax : Int) : Int :=
  toInt (cfg.baseBankSize + bankmax * cfg.bankSizeStep) % 2 ^ 64

section Handlers

variable (cfg : LockerConfig) (quests : Checks)

/-- `add_common`. -/
def addCommon (item amount : Int) : Prog Locker Unit := do
  discard (delItem quests item amount)
  calculateStats quests

def lockerAdd (x y item amount : Int) : Prog Locker Unit := do
  let s ← get
  let self := s.body
  let item := toShort item
  let amount := toInt amount
  if self.trading then return ()
  else if item = 1 then return ()
  else if amount ≤ 0 then return ()
  else if hasItem self item false < amount then return ()
  else if pathLength self.x self.y x y ≤ 1 ∧ cfg.bankVault self.mapid x y then
    match s.store.items.find? (·.id = item) with
    | some it =>
        if toInt (it.amount + amount) < 0 then return ()
        else
          let amount := min amount (toInt (cfg.maxBank - it.amount))
          modify (·.put (s.store.grow item amount))
          addCommon quests item amount
    | none =>
        if cfg.lockermax s.store.bankmax ≤ s.store.items.length then return ()
        else
          let amount := min amount cfg.maxBank
          modify (·.put (s.store.start item amount))
          addCommon quests item amount
  else return ()

/-- `it->amount -= taken`, where an empty stack is erased. -/
def withdraw (item taken : Int) (items : List CharacterItem) : List CharacterItem :=
  if toInt (amountOf items item - taken) ≤ 0 then (erase item items).getD items
  else change item (· - taken) items

def lockerTake (x y item : Int) : Prog Locker Unit := do
  let s ← get
  let self := s.body
  let item := toShort item
  if self.trading then return ()
  else if pathLength self.x self.y x y ≤ 1 ∧ cfg.bankVault self.mapid x y then
    match s.store.items.find? (·.id = item) with
    | none => return ()
    | some it =>
        let taken := canHoldItem cfg.toConfig self it.id it.amount
        discard (addItem cfg.toConfig quests item taken)
        calculateStats quests
        modify fun s => s.put { s.store with items := withdraw item taken s.store.items }
  else return ()

end Handlers

structure LockerConserved (cfg : LockerConfig) (s s' : State Locker) : Prop where
  totals (id : Int) :
    s'.own id + total id s'.store.items = s.own id + total id s.store.items
  unique : (s.store.items.map (·.id)).Nodup → (s'.store.items.map (·.id)).Nodup
  /-- A stack that is not positive was none before. -/
  positive : ∀ item ∈ s'.store.items,
    0 < item.amount ∨ ∃ old ∈ s.store.items, old.id = item.id ∧ old.amount ≤ 0
  /-- A stack above the limit was there before. -/
  limit : ∀ item ∈ s'.store.items,
    item.amount ≤ cfg.maxBank ∨ ∃ old ∈ s.store.items, old.id = item.id ∧ item.amount ≤ old.amount

/-- A stack that was there before may be anything. -/
theorem positive_or_old {items : List CharacterItem} {i : CharacterItem} (h : i ∈ items) :
    0 < i.amount ∨ ∃ old ∈ items, old.id = i.id ∧ old.amount ≤ 0 := by
  by_cases hPositive : 0 < i.amount
  · exact .inl hPositive
  · exact .inr ⟨i, h, rfl, Int.not_lt.mp hPositive⟩

/-- Nothing is stored or taken out. -/
theorem LockerConserved.of_same {cfg : LockerConfig} {s s' : State Locker}
    (hOwn : ∀ id, s'.own id = s.own id) (hStore : s'.store = s.store) : LockerConserved cfg s s' := by
  refine ⟨fun id => by rw [hOwn, hStore], fun h => hStore ▸ h, fun item hItem => ?_,
    fun item hItem => ?_⟩
  · rw [hStore] at hItem
    exact positive_or_old hItem
  · rw [hStore] at hItem
    exact .inr ⟨item, hItem, rfl, Int.le_refl _⟩

section Add

variable {cfg : LockerConfig} {quests : Checks} {s : State Locker} {x y item amount : Int}

/-- The second quest check changes neither the locker nor what is owned. -/
theorem addCommon_effect (quests : Checks) (s : State Locker) (item amount : Int) :
    (∀ id, (final (addCommon quests item amount) s).own id =
      (final (discard (delItem quests item amount)) s).own id) ∧
      (final (addCommon quests item amount) s).store = s.store := by
  unfold addCommon
  rw [delItem_final, delItem_last]
  cases surrendered s.body.inventory item amount with
  | none =>
      rw [calculateStats_last]
      exact ⟨fun id => State.own_checked quests s id, rfl⟩
  | some inventory =>
      dsimp only
      split
      · exact ⟨fun id => rfl, rfl⟩
      · rw [calculateStats_last]
        exact ⟨fun id => State.own_checked quests _ id, rfl⟩

/-- The checks in front of the search of the locker. -/
def LockerAdds (cfg : LockerConfig) (s : State Locker) (x y item amount : Int) : Prop :=
  s.body.trading = false ∧ toShort item ≠ 1 ∧ 0 < toInt amount ∧
    toInt amount ≤ hasItem s.body (toShort item) false ∧
      pathLength s.body.x s.body.y x y ≤ 1 ∧ cfg.bankVault s.body.mapid x y = true

/-- There is room on a stack, or a new stack may be made. The last case needs two
stacks of one item and a limit below zero. -/
def StackTakes (cfg : LockerConfig) (store : Locker) (item amount : Int) : Prop :=
  match store.items.find? (·.id = item) with
  | none => store.items.length < cfg.lockermax store.bankmax → 0 < cfg.maxBank
  | some it =>
      0 ≤ toInt (it.amount + amount) →
        0 ≤ toInt (cfg.maxBank - it.amount) ∧
          (it.amount ≤ cfg.maxBank ∨ ∃ old ∈ store.items, old.id = item ∧
            it.amount + min amount (toInt (cfg.maxBank - it.amount)) ≤ old.amount)

theorem lockerAdd_refused (h : ¬LockerAdds cfg s x y item amount) :
    final (lockerAdd cfg quests x y item amount) s = s := by
  unfold LockerAdds at h
  unfold lockerAdd
  rw [final_read]
  dsimp only
  split
  · rfl
  case isFalse hTrading =>
    split
    · rfl
    · split
      · rfl
      · split
        · rfl
        · split
          case isTrue hNear =>
            exact absurd ⟨eq_false_of_ne_true hTrading, by assumption, by omega, by omega, hNear⟩ h
          · rfl

/-- What is stored and what is carried change by the same amount. -/
theorem stored_own (quests : Checks) (store : Locker) {n : Int} (hPos : 0 ≤ n) (hn : n ≤ toInt amount)
    (h : LockerAdds cfg s x y item amount) (id : Int) :
    (final (addCommon quests (toShort item) n) (s.put store)).own id =
      s.own id - if id = toShort item then n else 0 := by
  obtain ⟨hTrading, -, -, hHeld, -⟩ := h
  rw [hasItem_eq_amountOf hTrading] at hHeld
  rw [(addCommon_effect _ _ _ _).1]
  by_cases hZero : n = 0
  · rw [hZero, delItem_nothing _ _ (Int.le_refl 0), State.own_put]
    split
    · rw [Int.sub_zero]
    · rw [Int.sub_zero]
  · rw [delItem_own quests (s.put store) (by omega) (Int.le_trans hn hHeld), State.own_put]

theorem lockerAdd_stack {it : CharacterItem} (h : LockerAdds cfg s x y item amount)
    (hFound : s.store.items.find? (·.id = toShort item) = some it) :
    final (lockerAdd cfg quests x y item amount) s =
      if toInt (it.amount + toInt amount) < 0 then s
      else
        final (addCommon quests (toShort item)
          (min (toInt amount) (toInt (cfg.maxBank - it.amount))))
          (s.put (s.store.grow (toShort item)
            (min (toInt amount) (toInt (cfg.maxBank - it.amount))))) := by
  obtain ⟨hTrading, hGold, hPos, hHeld, hNear⟩ := h
  unfold lockerAdd
  rw [final_read]
  dsimp only
  rw [hTrading, if_neg Bool.false_ne_true, if_neg hGold, if_neg (by omega), if_neg (by omega),
    if_pos hNear, hFound]
  dsimp only
  split
  · rfl
  · rw [final_modify_bind]

theorem lockerAdd_new (h : LockerAdds cfg s x y item amount)
    (hMissing : s.store.items.find? (·.id = toShort item) = none) :
    final (lockerAdd cfg quests x y item amount) s =
      if cfg.lockermax s.store.bankmax ≤ s.store.items.length then s
      else
        final (addCommon quests (toShort item) (min (toInt amount) cfg.maxBank))
          (s.put (s.store.start (toShort item) (min (toInt amount) cfg.maxBank))) := by
  obtain ⟨hTrading, hGold, hPos, hHeld, hNear⟩ := h
  unfold lockerAdd
  rw [final_read]
  dsimp only
  rw [hTrading, if_neg Bool.false_ne_true, if_neg hGold, if_neg (by omega), if_neg (by omega),
    if_pos hNear, hMissing]
  dsimp only
  split
  · rfl
  · rw [final_modify_bind]

/-- A difference of limits that has not run over leaves room up to the limit. -/
theorem room_le {limit held : Int} (hLimit : IsInt limit) (hHeld : IsInt held)
    (hRoom : 0 ≤ toInt (limit - held)) (h : held ≤ limit) : toInt (limit - held) = limit - held := by
  unfold IsInt at hLimit hHeld
  unfold toInt at *
  rw [Int.bmod_def] at hRoom
  exact Int.bmod_eq_of_le (by omega) (by omega)

theorem grow_conserved_iff {it : CharacterItem} (h : LockerAdds cfg s x y item amount)
    (hFound : s.store.items.find? (·.id = toShort item) = some it)
    (hSum : 0 ≤ toInt (it.amount + toInt amount)) :
    LockerConserved cfg s
      (final (addCommon quests (toShort item) (min (toInt amount) (toInt (cfg.maxBank - it.amount))))
        (s.put (s.store.grow (toShort item)
          (min (toInt amount) (toInt (cfg.maxBank - it.amount)))))) ↔
      StackTakes cfg s.store (toShort item) (toInt amount) := by
  have hExact := toInt_add it.isInt (isInt_toInt amount) h.2.2.1 hSum
  have hSumInt := isInt_toInt (it.amount + toInt amount)
  have hItInt := it.isInt
  have hGiven := h.2.2.1
  rw [StackTakes, hFound]
  dsimp only
  rw [imp_iff_right hSum]
  generalize hn : min (toInt amount) (toInt (cfg.maxBank - it.amount)) = n
  have hStore := (addCommon_effect quests (s.put (s.store.grow (toShort item) n)) (toShort item) n).2
  rw [State.store_put] at hStore
  have hTotal := total_change hFound (· + n)
  by_cases hRoom : 0 ≤ toInt (cfg.maxBank - it.amount)
  · have hAdded : toInt (it.amount + n) = it.amount + n := by
      rw [hExact] at hSumInt
      unfold IsInt at hSumInt hItInt
      exact IsInt.toInt_eq ⟨by omega, by omega⟩
    have hOwn := stored_own quests (s.store.grow (toShort item) n) (by omega : 0 ≤ n) (by omega) h
    have hMember := change_mem hFound (· + n)
    constructor
    · intro hConserved
      refine ⟨hRoom, ?_⟩
      have hLimit := hConserved.limit (.of (toShort item) (it.amount + n)) (by rw [hStore]; exact hMember)
      rw [of_amount, hAdded, of_id] at hLimit
      exact hLimit.imp_left (by omega)
    · intro ⟨_, hLimit⟩
      refine ⟨fun id => ?_, fun hUnique => ?_, fun i hi => ?_, fun i hi => ?_⟩
      · rw [hOwn, hStore, Locker.grow, hTotal, hAdded]
        split
        · omega
        · omega
      · rw [hStore, Locker.grow, ids_change hFound]
        exact hUnique
      · rw [hStore] at hi
        obtain hOld | rfl := mem_change hFound hi
        · exact positive_or_old hOld
        · rw [of_amount, hAdded, of_id]
          by_cases hPositive : 0 < it.amount + n
          · exact .inl hPositive
          · exact .inr ⟨it, List.mem_of_find?_eq_some hFound, id_of_found hFound, by omega⟩
      · rw [hStore] at hi
        obtain hOld | rfl := mem_change hFound hi
        · exact .inr ⟨i, hOld, rfl, Int.le_refl _⟩
        · rw [of_amount, hAdded, of_id]
          refine hLimit.imp_left fun hBelow => ?_
          have hExactRoom := room_le cfg.maxBank_isInt hItInt hRoom hBelow
          omega
  · refine iff_of_false (fun hConserved => ?_) fun hTakes => hRoom hTakes.1
    have hNegative : n = toInt (cfg.maxBank - it.amount) := by omega
    have hFull : toInt (it.amount + n) = cfg.maxBank := by
      rw [hNegative, toInt_add_toInt, Int.add_comm, Int.sub_add_cancel]
      exact cfg.maxBank_isInt.toInt_eq
    have hSame := hConserved.totals (toShort item)
    rw [(addCommon_effect _ _ _ _).1, delItem_nothing _ _ (by omega), State.own_put, hStore,
      Locker.grow, hTotal, if_pos rfl, hFull] at hSame
    have hZero : cfg.maxBank - it.amount = 0 := by omega
    rw [hZero] at hRoom
    exact hRoom (by decide)

theorem start_conserved_iff (h : LockerAdds cfg s x y item amount)
    (hMissing : s.store.items.find? (·.id = toShort item) = none) :
    LockerConserved cfg s
      (final (addCommon quests (toShort item) (min (toInt amount) cfg.maxBank))
        (s.put (s.store.start (toShort item) (min (toInt amount) cfg.maxBank)))) ↔
      0 < cfg.maxBank := by
  generalize hn : min (toInt amount) cfg.maxBank = n
  have hAmount := isInt_toInt amount
  have hMaxInt := cfg.maxBank_isInt
  have hInt : toInt n = n := by
    unfold IsInt at hAmount hMaxInt
    exact IsInt.toInt_eq ⟨by omega, by omega⟩
  have hStore := (addCommon_effect quests (s.put (s.store.start (toShort item) n)) (toShort item) n).2
  rw [State.store_put] at hStore
  have hTotal (id : Int) : total id (s.store.start (toShort item) n).items =
      total id s.store.items + if toShort item = id then n else 0 := by
    rw [Locker.start, total_append, total, total, of_id, of_amount, hInt, Int.add_zero]
  have hFresh := id_of_missing hMissing
  by_cases hPos : 0 < cfg.maxBank
  · have hGiven := h.2.2.1
    have hOwn := stored_own quests (s.store.start (toShort item) n) (by omega : 0 ≤ n) (by omega) h
    refine iff_of_true ⟨fun id => ?_, fun hUnique => ?_, fun i hi => ?_, fun i hi => ?_⟩ hPos
    · rw [hOwn, hStore, hTotal]
      by_cases hId : id = toShort item
      · rw [if_pos hId, if_pos hId.symm]
        omega
      · rw [if_neg hId, if_neg (Ne.symm hId)]
        omega
    · rw [hStore, Locker.start, List.map_append]
      refine List.nodup_append.mpr ⟨hUnique, List.pairwise_singleton _ _, fun id hId other hOther => ?_⟩
      obtain ⟨i, hi, rfl⟩ := List.mem_map.mp hId
      rw [List.map_cons, List.map_nil, List.mem_singleton, of_id] at hOther
      exact hOther ▸ hFresh i hi
    · rw [hStore] at hi
      obtain hOld | hNew := List.mem_append.mp hi
      · exact positive_or_old hOld
      · rw [List.mem_singleton.mp hNew, of_amount, hInt]
        exact .inl (by omega)
    · rw [hStore] at hi
      obtain hOld | hNew := List.mem_append.mp hi
      · exact .inr ⟨i, hOld, rfl, Int.le_refl _⟩
      · rw [List.mem_singleton.mp hNew, of_amount, hInt]
        exact .inl (by omega)
  · refine iff_of_false (fun hConserved => ?_) hPos
    have hSame := hConserved.totals (toShort item)
    rw [(addCommon_effect _ _ _ _).1, delItem_nothing _ _ (by omega), State.own_put, hStore, hTotal,
      if_pos rfl] at hSame
    have hNew : CharacterItem.of (toShort item) n ∈ (s.store.start (toShort item) n).items :=
      List.mem_append_right _ List.mem_cons_self
    obtain hPositive | ⟨old, hOld, hId, -⟩ := hConserved.positive (.of (toShort item) n)
      (by rw [hStore]; exact hNew)
    · rw [of_amount, hInt] at hPositive
      omega
    · exact hFresh old hOld hId

/-- Something is stored exactly as far as the stack takes it. -/
theorem lockerAdd_conserved_iff (cfg : LockerConfig) (quests : Checks) (s : State Locker)
    (x y item amount : Int) :
    LockerConserved cfg s (final (lockerAdd cfg quests x y item amount) s) ↔
      (LockerAdds cfg s x y item amount → StackTakes cfg s.store (toShort item) (toInt amount)) := by
  by_cases hAdds : LockerAdds cfg s x y item amount
  · cases hFound : s.store.items.find? (·.id = toShort item) with
    | none =>
        rw [lockerAdd_new hAdds hFound, StackTakes, hFound]
        dsimp only
        split
        case isTrue hNone =>
          exact iff_of_true (.of_same (fun _ => rfl) rfl) fun _ hRoom => absurd hRoom (by omega)
        case isFalse hRoom =>
          rw [start_conserved_iff hAdds hFound]
          exact ⟨fun h _ _ => h, fun h => h hAdds (by omega)⟩
    | some it =>
        rw [lockerAdd_stack hAdds hFound]
        split
        case isTrue hOver =>
          refine iff_of_true (.of_same (fun _ => rfl) rfl) fun _ => ?_
          rw [StackTakes, hFound]
          exact fun hSum => absurd hSum (by omega)
        case isFalse hSum =>
          rw [grow_conserved_iff hAdds hFound (by omega)]
          exact ⟨fun h _ => h, fun h => h hAdds⟩
  · rw [lockerAdd_refused hAdds]
    exact iff_of_true (.of_same (fun _ => rfl) rfl) fun h => absurd h hAdds

end Add

/-- What stays of a stack. -/
def leftOver (held taken : Int) : Int :=
  if toInt (held - taken) ≤ 0 then 0 else toInt (held - taken)

section Withdraw

variable {items : List CharacterItem} {it : CharacterItem} {item taken : Int}

theorem amountOf_of_found (h : items.find? (·.id = item) = some it) :
    amountOf items item = it.amount := by
  rw [amountOf, h]

theorem total_withdraw (h : items.find? (·.id = item) = some it) (id : Int) :
    total id (withdraw item taken items) =
      total id items + if id = item then leftOver it.amount taken - it.amount else 0 := by
  unfold withdraw leftOver
  rw [amountOf_of_found h]
  split
  · rw [erase_eq h, Option.getD_some, total_eraseFirst h]
    split
    · omega
    · omega
  · rw [total_change h]

theorem ids_withdraw (h : items.find? (·.id = item) = some it)
    (hUnique : (items.map (·.id)).Nodup) : ((withdraw item taken items).map (·.id)).Nodup := by
  unfold withdraw
  split
  · rw [erase_eq h, Option.getD_some]
    exact hUnique.sublist ((Entries.eraseFirst_sublist _ items).map _)
  · rw [ids_change h]
    exact hUnique

theorem mem_withdraw (h : items.find? (·.id = item) = some it) {i : CharacterItem}
    (hi : i ∈ withdraw item taken items) :
    i ∈ items ∨ i.id = item ∧ i.amount = leftOver it.amount taken ∧ 0 < i.amount := by
  unfold withdraw at hi
  unfold leftOver
  rw [amountOf_of_found h] at hi
  split at hi
  · rw [erase_eq h, Option.getD_some] at hi
    exact .inl ((Entries.eraseFirst_sublist _ items).subset hi)
  case isFalse hSome =>
    obtain hOld | rfl := mem_change h hi
    · exact .inl hOld
    · rw [of_id, of_amount, if_neg hSome]
      exact .inr ⟨rfl, rfl, by omega⟩

end Withdraw

section Take

variable {cfg : LockerConfig} {quests : Checks} {s : State Locker} {x y item : Int}
  {it : CharacterItem}

/-- The checks in front of the search of the locker. -/
def LockerOpens (cfg : LockerConfig) (s : State Locker) (x y : Int) : Prop :=
  s.body.trading = false ∧ pathLength s.body.x s.body.y x y ≤ 1 ∧
    cfg.bankVault s.body.mapid x y = true

/-- Taking from a stack leaves as much as has not arrived. Where a quest check
throws, nothing may have arrived, and else all of it must. -/
def StackGives (cfg : LockerConfig) (quests : Checks) (s : State Locker) (item : Int)
    (it : CharacterItem) : Prop :=
  let taken := canHoldItem cfg.toConfig s.body it.id it.amount
  match received cfg.toConfig s.body.inventory item taken with
  | none => ¬s.Throws quests → leftOver it.amount taken = it.amount
  | some inventory =>
      if (s.carry inventory).Throws quests ∨ ((s.carry inventory).checked quests).Throws quests then
        Full cfg.toConfig s.body.inventory item taken
      else Fits cfg.toConfig s.body.inventory item taken

/-- The stack that is asked for gives what is taken from it. -/
def LockerGives (cfg : LockerConfig) (quests : Checks) (s : State Locker) (item : Int) : Prop :=
  ∀ it, s.store.items.find? (·.id = item) = some it → StackGives cfg quests s item it

/-- A locker with less on one stack. -/
theorem withdraw_conserved_iff {s' : State Locker} {taken gain : Int}
    (hFound : s.store.items.find? (·.id = item) = some it)
    (hOwn : ∀ id, s'.own id = s.own id + if id = item then gain else 0)
    (hStore : s'.store.items = withdraw item taken s.store.items)
    (hLess : 0 ≤ gain ∨ leftOver it.amount taken ≤ it.amount) :
    LockerConserved cfg s s' ↔ gain = it.amount - leftOver it.amount taken := by
  have hTotal (id : Int) : total id (withdraw item taken s.store.items) = _ :=
    total_withdraw hFound id
  constructor
  · intro h
    have hSame := h.totals item
    rw [hOwn, hStore, hTotal, if_pos rfl, if_pos rfl] at hSame
    omega
  · intro hGain
    refine ⟨fun id => ?_, fun hUnique => ?_, fun i hi => ?_, fun i hi => ?_⟩
    · rw [hOwn, hStore, hTotal]
      split
      · omega
      · omega
    · rw [hStore]
      exact ids_withdraw hFound hUnique
    · rw [hStore] at hi
      obtain hOld | ⟨-, -, hPositive⟩ := mem_withdraw hFound hi
      · exact positive_or_old hOld
      · exact .inl hPositive
    · rw [hStore] at hi
      obtain hOld | ⟨hId, hAmount, -⟩ := mem_withdraw hFound hi
      · exact .inr ⟨i, hOld, rfl, Int.le_refl _⟩
      · refine .inr ⟨it, List.mem_of_find?_eq_some hFound, ?_, by omega⟩
        rw [id_of_found hFound, hId]

/-- Where the locker is as before, only what is carried counts. -/
theorem untouched_conserved_iff {s' : State Locker} {gain : Int}
    (hOwn : ∀ id, s'.own id = s.own id + if id = item then gain else 0)
    (hStore : s'.store = s.store) : LockerConserved cfg s s' ↔ gain = 0 := by
  constructor
  · intro h
    have hSame := h.totals item
    rw [hOwn, hStore, if_pos rfl] at hSame
    omega
  · intro hGain
    refine .of_same (fun id => ?_) hStore
    rw [hOwn, hGain, ite_self, Int.add_zero]

theorem lockerTake_refused (h : ¬LockerOpens cfg s x y) :
    final (lockerTake cfg quests x y item) s = s := by
  unfold LockerOpens at h
  unfold lockerTake
  rw [final_read]
  dsimp only
  split
  · rfl
  case isFalse hTrading =>
    split
    case isTrue hNear => exact absurd ⟨eq_false_of_ne_true hTrading, hNear⟩ h
    · rfl

theorem lockerTake_missing (hFound : s.store.items.find? (·.id = toShort item) = none) :
    final (lockerTake cfg quests x y item) s = s := by
  unfold lockerTake
  rw [final_read]
  dsimp only
  rw [hFound]
  split
  · rfl
  · split
    · rfl
    · rfl

/-- The end of `Locker_Take`, behind the gift. -/
def takenAway (quests : Checks) (item taken : Int) : Prog Locker Unit := do
  calculateStats quests
  modify fun s => s.put { s.store with items := withdraw item taken s.store.items }

theorem lockerTake_found (h : LockerOpens cfg s x y)
    (hFound : s.store.items.find? (·.id = toShort item) = some it) :
    final (lockerTake cfg quests x y item) s =
      final (discard (addItem cfg.toConfig quests (toShort item)
          (canHoldItem cfg.toConfig s.body it.id it.amount)) >>= fun _ =>
        takenAway quests (toShort item) (canHoldItem cfg.toConfig s.body it.id it.amount)) s := by
  obtain ⟨hTrading, hNear⟩ := h
  unfold lockerTake
  rw [final_read]
  dsimp only
  rw [hTrading, if_neg Bool.false_ne_true, if_pos hNear, hFound]
  rfl

/-- The stack stays as it is where the quest check throws. -/
theorem takenAway_effect (quests : Checks) (s : State Locker) (item taken : Int) :
    (∀ id, (final (takenAway quests item taken) s).own id = s.own id) ∧
      (final (takenAway quests item taken) s).store =
        if s.Throws quests then s.store
        else { s.store with items := withdraw item taken s.store.items } := by
  unfold takenAway
  rw [calculateStats_final]
  split
  · exact ⟨fun id => State.own_checked quests s id, rfl⟩
  · exact ⟨fun id => State.own_checked quests s id, rfl⟩

/-- A stack that is left after something of it has been taken. -/
theorem leftOver_of_le (hItem : IsInt it.amount) (hPos : 0 < taken) (hLe : taken ≤ it.amount) :
    leftOver it.amount taken = it.amount - taken := by
  have hExact : toInt (it.amount - taken) = it.amount - taken := by
    unfold IsInt at hItem
    exact IsInt.toInt_eq ⟨by omega, by omega⟩
  unfold leftOver
  rw [hExact]
  split
  · omega
  · rfl

theorem found_conserved_iff (hFound : s.store.items.find? (·.id = item) = some it) :
    LockerConserved cfg s
      (final (discard (addItem cfg.toConfig quests item
          (canHoldItem cfg.toConfig s.body it.id it.amount)) >>= fun _ =>
        takenAway quests item (canHoldItem cfg.toConfig s.body it.id it.amount)) s) ↔
      StackGives cfg quests s item it := by
  unfold StackGives
  dsimp only
  generalize hTaken : canHoldItem cfg.toConfig s.body it.id it.amount = taken
  rw [addItem_final]
  cases hReceived : received cfg.toConfig s.body.inventory item taken with
  | none =>
      obtain ⟨hOwn, hStore⟩ := takenAway_effect quests s item taken
      have hSame (id : Int) : (final (takenAway quests item taken) s).own id =
          s.own id + if id = item then 0 else 0 := by
        rw [hOwn, ite_self, Int.add_zero]
      dsimp only
      by_cases hThrows : s.Throws quests
      · rw [if_pos hThrows] at hStore
        exact iff_of_true (.of_same hOwn hStore) fun hQuiet => absurd hThrows hQuiet
      · rw [if_neg hThrows] at hStore
        rw [withdraw_conserved_iff hFound hSame (congrArg Locker.items hStore) (.inl (Int.le_refl 0)),
          imp_iff_right hThrows]
        omega
  | some inventory =>
      have hPos := received_pos hReceived
      have hLe : taken ≤ it.amount := by
        rw [← hTaken]
        exact canHoldItem_le (by omega)
      have hTakenInt : IsInt taken := by
        have hItem := it.isInt
        unfold IsInt at *
        omega
      have hLeft := leftOver_of_le it.isInt hPos hLe
      obtain ⟨hOthers, hFits, hFull⟩ := received_total hTakenInt hPos hReceived
      have hGain (id : Int) : ((s.carry inventory).checked quests).own id =
          s.own id + if id = item then total item inventory - total item s.body.inventory else 0 := by
        rw [State.own_checked, State.own_carry]
        split
        case isTrue hId =>
          rw [hId]
          omega
        case isFalse hId =>
          rw [hOthers id hId]
          omega
      dsimp only
      by_cases hFirst : (s.carry inventory).Throws quests
      · rw [if_pos hFirst, if_pos (.inl hFirst), untouched_conserved_iff hGain rfl, ← hFull]
        omega
      · obtain ⟨hOwn, hStore⟩ :=
          takenAway_effect quests ((s.carry inventory).checked quests) item taken
        have hLast (id : Int) : (final (takenAway quests item taken)
            ((s.carry inventory).checked quests)).own id = _ := (hOwn id).trans (hGain id)
        rw [if_neg hFirst]
        by_cases hSecond : ((s.carry inventory).checked quests).Throws quests
        · rw [if_pos hSecond] at hStore
          rw [if_pos (.inr hSecond), untouched_conserved_iff hLast hStore, ← hFull]
          omega
        · rw [if_neg hSecond] at hStore
          rw [if_neg (not_or.mpr ⟨hFirst, hSecond⟩),
            withdraw_conserved_iff hFound hLast (congrArg Locker.items hStore) (.inr (by omega)), ← hFits]
          omega

/-- A stack is taken out exactly as far as it arrives. -/
theorem lockerTake_conserved_iff (cfg : LockerConfig) (quests : Checks) (s : State Locker)
    (x y item : Int) :
    LockerConserved cfg s (final (lockerTake cfg quests x y item) s) ↔
      (LockerOpens cfg s x y → LockerGives cfg quests s (toShort item)) := by
  by_cases hOpens : LockerOpens cfg s x y
  · rw [imp_iff_right hOpens, LockerGives]
    cases hFound : s.store.items.find? (·.id = toShort item) with
    | none =>
        rw [lockerTake_missing hFound]
        exact iff_of_true (.of_same (fun _ => rfl) rfl) fun it hIt => by cases hIt
    | some it =>
        rw [lockerTake_found hOpens hFound, found_conserved_iff hFound]
        simp only [Option.some.injEq, forall_eq']
  · rw [lockerTake_refused hOpens]
    exact iff_of_true (.of_same (fun _ => rfl) rfl) fun h => absurd h hOpens

end Take

section Requests

inductive LockerRequest
  | add (x y item amount : Int)
  | take (x y item : Int)
  deriving DecidableEq

def lockerRequest (cfg : LockerConfig) (quests : Checks) : LockerRequest → Prog Locker Unit
  | .add x y item amount => lockerAdd cfg quests x y item amount
  | .take x y item => lockerTake cfg quests x y item

/-- What is asked for goes from one place to the other. -/
def LockerRequest.Held (cfg : LockerConfig) (quests : Checks) (s : State Locker) :
    LockerRequest → Prop
  | .add x y item amount =>
      LockerAdds cfg s x y item amount → StackTakes cfg s.store (toShort item) (toInt amount)
  | .take x y item => LockerOpens cfg s x y → LockerGives cfg quests s (toShort item)

theorem lockerRequest_conserved_iff (cfg : LockerConfig) (quests : Checks) (s : State Locker)
    (request : LockerRequest) :
    LockerConserved cfg s (final (lockerRequest cfg quests request) s) ↔
      request.Held cfg quests s := by
  cases request with
  | add x y item amount => exact lockerAdd_conserved_iff cfg quests s x y item amount
  | take x y item => exact lockerTake_conserved_iff cfg quests s x y item

def smallVault : LockerConfig :=
  { smallWorld with
    baseBankSize := 20
    bankSizeStep := 5
    maxBank := 50
    maxBank_isInt := by decide
    bankVault := fun _ x y => decide (x = 5 ∧ y = 6) }

/-- A stack above the limit shrinks when more is put in. -/
theorem large_stack_shrinks :
    ¬LockerConserved smallVault (beside (holding .npc [.of 2 10]) ⟨[.of 2 60], 0⟩)
      (final (lockerRequest smallVault idle (.add 5 6 2 5))
        (beside (holding .npc [.of 2 10]) ⟨[.of 2 60], 0⟩)) :=
  fun h => absurd (h.totals 2) (by decide)

end Requests

end Etheos.Stores
