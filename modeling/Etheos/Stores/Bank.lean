import Etheos.Stores.Carried

/-! The gold in the bank. -/
namespace Etheos.Stores

open Characters CharacterItem General

/-- `goldbank`. -/
structure Account where
  goldbank : Int
  isInt : IsInt goldbank

def Account.of (goldbank : Int) : Account := ⟨toInt goldbank, isInt_toInt goldbank⟩

theorem Account.of_goldbank {n m : Int} (h : toInt n = m) : (Account.of n).goldbank = m := h

structure BankConfig extends Config where
  maxBankGold : Int

section Handlers

variable (cfg : BankConfig) (quests : Checks) (amount : Int)

def bankAdd : Prog Account Unit := do
  let s ← get
  let self := s.body
  if self.trading then return ()
  else if toInt amount ≤ 0 then return ()
  else
    let amount := min (toInt amount) (hasItem self 1 false)
    if self.npcType = .bank then
      let newgold := toInt (s.store.goldbank + amount)
      if newgold < s.store.goldbank ∨ cfg.maxBankGold < newgold then return ()
      else
        discard (delItem quests 1 amount)
        modify (·.put (.of newgold))
    else return ()

def bankTake : Prog Account Unit := do
  let s ← get
  if toInt amount ≤ 0 then return ()
  else if s.body.npcType = .bank then
    let newgold := toInt (s.store.goldbank - toInt amount)
    if s.store.goldbank < newgold ∨ newgold < 0 then return ()
    else
      modify (·.put (.of newgold))
      discard (addItem cfg.toConfig quests 1 (toInt amount))
  else return ()

end Handlers

inductive BankRequest
  | add (amount : Int)
  | take (amount : Int)
  deriving DecidableEq

def bankRequest (cfg : BankConfig) (quests : Checks) : BankRequest → Prog Account Unit
  | .add amount => bankAdd cfg quests amount
  | .take amount => bankTake cfg quests amount

/-- Gold is moved to the bank, or nothing changes at all. The bank keeps to its
limits. -/
structure GoldMoved (cfg : BankConfig) (n : Int) (s s' : State Account) : Prop where
  whole : s' = s ∨ s'.own 1 = s.own 1 - n ∧ s'.store.goldbank = s.store.goldbank + n
  bounds : 0 ≤ s.store.goldbank → s.store.goldbank ≤ cfg.maxBankGold →
    0 ≤ s'.store.goldbank ∧ s'.store.goldbank ≤ cfg.maxBankGold

/-- The gold carried and the gold in the bank stay the same together. -/
theorem GoldMoved.sum {cfg : BankConfig} {n : Int} {s s' : State Account} (h : GoldMoved cfg n s s') :
    s'.own 1 + s'.store.goldbank = s.own 1 + s.store.goldbank := by
  obtain hSame | ⟨hOwn, hBank⟩ := h.whole
  · rw [hSame]
  · omega

theorem GoldMoved.refl {cfg : BankConfig} {n : Int} {s : State Account} : GoldMoved cfg n s s :=
  ⟨.inl rfl, fun hLow hHigh => ⟨hLow, hHigh⟩⟩

/-- What is paid in: what is asked for, as far as it is carried. -/
def deposit (s : State Account) (amount : Int) : Int := min (toInt amount) (hasItem s.body 1 false)

/-- What is moved to the bank by a request that is carried out. -/
def BankRequest.wanted (s : State Account) : BankRequest → Int
  | .add amount => deposit s amount
  | .take amount => -toInt amount

/-- The checks of `Bank_Add` are passed. -/
def PaysIn (cfg : BankConfig) (s : State Account) (amount : Int) : Prop :=
  s.body.trading = false ∧ 0 < toInt amount ∧ s.body.npcType = .bank ∧
    s.store.goldbank ≤ toInt (s.store.goldbank + deposit s amount) ∧
      toInt (s.store.goldbank + deposit s amount) ≤ cfg.maxBankGold

/-- The checks of `Bank_Take` are passed. -/
def PaysOut (s : State Account) (amount : Int) : Prop :=
  0 < toInt amount ∧ s.body.npcType = .bank ∧
    toInt (s.store.goldbank - toInt amount) ≤ s.store.goldbank ∧
      0 ≤ toInt (s.store.goldbank - toInt amount)

section Take

variable {cfg : BankConfig} {quests : Checks} {s : State Account} {amount : Int}

theorem bankTake_refused (h : ¬PaysOut s amount) : final (bankTake cfg quests amount) s = s := by
  unfold PaysOut at h
  unfold bankTake
  rw [final_read]
  dsimp only
  split
  · rfl
  · split
    case isTrue hNpc =>
      split
      · rfl
      · exact absurd ⟨by omega, hNpc, by omega, by omega⟩ h
    · rfl

theorem bankTake_paysOut (h : PaysOut s amount) :
    final (bankTake cfg quests amount) s =
      final (discard (addItem cfg.toConfig quests 1 (toInt amount)))
        (s.put (.of (toInt (s.store.goldbank - toInt amount)))) := by
  obtain ⟨hPos, hNpc, hLess, hLow⟩ := h
  unfold bankTake
  rw [final_read, if_neg (by omega), if_pos hNpc]
  dsimp only
  rw [if_neg (by omega), final_modify_bind]

/-- A withdrawal that passes the checks has not run over. -/
theorem paysOut_exact (h : PaysOut s amount) :
    toInt (s.store.goldbank - toInt amount) = s.store.goldbank - toInt amount := by
  obtain ⟨hPos, -, hLess, -⟩ := h
  have hGold := s.store.isInt
  have hAmount := isInt_toInt amount
  unfold IsInt at hGold hAmount
  by_cases hSmall : -2 ^ 31 ≤ s.store.goldbank - toInt amount
  · exact IsInt.toInt_eq ⟨hSmall, by omega⟩
  · have hWrapped : toInt (s.store.goldbank - toInt amount) =
        s.store.goldbank - toInt amount + 2 ^ 32 := by
      unfold toInt at *
      rw [Int.bmod_def]
      omega
    omega

/-- A withdrawal is paid out in full only if it fits in. -/
theorem bankTake_moved_iff (cfg : BankConfig) (quests : Checks) (s : State Account) (amount : Int) :
    GoldMoved cfg (-toInt amount) s (final (bankTake cfg quests amount) s) ↔
      (PaysOut s amount → Fits cfg.toConfig s.body.inventory 1 (toInt amount)) := by
  by_cases hPays : PaysOut s amount
  · rw [bankTake_paysOut hPays, paysOut_exact hPays]
    have hPaid := Account.of_goldbank (paysOut_exact hPays)
    have hExact := paysOut_exact hPays
    obtain ⟨hPos, -, hLess, hLow⟩ := id hPays
    obtain ⟨-, hOwn, hStore⟩ := addItem_own cfg.toConfig quests
      (s.put (.of (s.store.goldbank - toInt amount))) (isInt_toInt amount) hPos
    rw [State.own_put, State.body_put] at hOwn
    rw [State.store_put] at hStore
    constructor
    · intro h _
      have hSum := h.sum
      rw [hStore, hPaid] at hSum
      exact hOwn.mp (by omega)
    · intro h
      have hGain := hOwn.mpr (h hPays)
      refine ⟨.inr ⟨?_, ?_⟩, fun _ hHigh => ?_⟩
      · rw [hGain, Int.sub_neg]
      · rw [hStore, hPaid]
        omega
      · rw [hStore, hPaid]
        omega
  · rw [bankTake_refused hPays]
    exact iff_of_true .refl fun h => absurd h hPays

end Take

section Add

variable {cfg : BankConfig} {quests : Checks} {s : State Account} {amount : Int}

theorem bankAdd_refused (h : ¬PaysIn cfg s amount) : final (bankAdd cfg quests amount) s = s := by
  unfold PaysIn deposit at h
  unfold bankAdd
  rw [final_read]
  dsimp only
  split
  · rfl
  case isFalse hTrading =>
    split
    · rfl
    · split
      case isTrue hNpc =>
        split
        · rfl
        · exact absurd ⟨eq_false_of_ne_true hTrading, by omega, hNpc, by omega, by omega⟩ h
      · rfl

theorem bankAdd_paysIn (h : PaysIn cfg s amount) :
    final (bankAdd cfg quests amount) s =
      final (discard (delItem quests 1 (deposit s amount)) >>= fun _ =>
        modify (·.put (.of (toInt (s.store.goldbank + deposit s amount))))) s := by
  obtain ⟨hTrading, hPos, hNpc, hMore, hMax⟩ := h
  unfold deposit at hMore hMax
  unfold bankAdd
  rw [final_read]
  dsimp only
  rw [hTrading, if_neg Bool.false_ne_true, if_neg (by omega), if_pos hNpc, if_neg (by omega)]
  rfl

/-- The gold carried is not below zero, and the quest check behind the payment
does not throw. -/
def PaymentHeld (quests : Checks) (s : State Account) (amount : Int) : Prop :=
  0 ≤ hasItem s.body 1 false ∧
    ∀ inventory, surrendered s.body.inventory 1 (deposit s amount) = some inventory →
      ¬(s.carry inventory).Throws quests

/-- Gold that is taken away is booked only if the quest check lets it go on. -/
theorem bankAdd_moved_iff (cfg : BankConfig) (quests : Checks) (s : State Account) (amount : Int) :
    GoldMoved cfg (deposit s amount) s (final (bankAdd cfg quests amount) s) ↔
      (PaysIn cfg s amount → PaymentHeld quests s amount) := by
  by_cases hPays : PaysIn cfg s amount
  · rw [bankAdd_paysIn hPays, delItem_final]
    have hGold := s.store.isInt
    have hAmount := isInt_toInt amount
    obtain ⟨hTrading, hPos, -, hMore, hMax⟩ := id hPays
    have hHeld := hasItem_eq_amountOf hTrading 1 false
    have hHeldInt := isInt_amountOf s.body.inventory 1
    have hEnough : deposit s amount ≤ amountOf s.body.inventory 1 := by
      unfold deposit
      omega
    cases hSurrendered : surrendered s.body.inventory 1 (deposit s amount) with
    | none =>
        have hNothing : deposit s amount ≤ 0 := by
          by_contra hSome
          obtain ⟨inventory, hTaken⟩ := surrendered_isSome (Int.not_le.mp hSome) hEnough
          rw [hTaken] at hSurrendered
          cases hSurrendered
        have hDeposit : deposit s amount = hasItem s.body 1 false := by
          unfold deposit at hNothing ⊢
          omega
        rw [final_modify, hDeposit]
        rw [hDeposit] at hMore hMax hNothing
        constructor
        · intro h _
          have hSum : toInt (toInt (s.store.goldbank + hasItem s.body 1 false)) = s.store.goldbank := by
            have hSum := h.sum
            rw [State.own_put, State.store_put] at hSum
            exact Int.add_left_cancel hSum
          refine ⟨?_, fun inventory hTaken => ?_⟩
          · rw [(isInt_toInt _).toInt_eq] at hSum
            exact Int.le_of_eq (toInt_add_eq_self (hHeld ▸ hHeldInt) hSum).symm
          · rw [hSurrendered] at hTaken
            cases hTaken
        · intro h
          have hZero : hasItem s.body 1 false = 0 := Int.le_antisymm hNothing (h hPays).1
          rw [hZero, Int.add_zero, hGold.toInt_eq]
          refine ⟨.inr ⟨?_, ?_⟩, fun hLow hHigh => ?_⟩
          · rw [State.own_put, Int.sub_zero]
          · rw [State.store_put, Account.of_goldbank hGold.toInt_eq, Int.add_zero]
          · rw [State.store_put, Account.of_goldbank hGold.toInt_eq]
            exact ⟨hLow, hHigh⟩
    | some inventory =>
        have hTotal := surrendered_total hEnough hSurrendered 1
        have hSome : 0 < deposit s amount := by
          unfold surrendered at hSurrendered
          split at hSurrendered
          · cases hSurrendered
          · omega
        have hExact : toInt (s.store.goldbank + deposit s amount) = s.store.goldbank + deposit s amount :=
          toInt_add_of_le hGold ⟨hSome, Int.lt_of_le_of_lt hEnough hHeldInt.2⟩ hMore
        have hOwn := State.own_carry s inventory 1
        rw [if_pos rfl] at hTotal
        dsimp only
        split
        case isTrue hThrows =>
          refine iff_of_false (fun h => ?_) fun h => (h hPays).2 inventory hSurrendered hThrows
          have hSum := h.sum
          rw [State.own_checked, State.store_checked, State.store_carry] at hSum
          omega
        case isFalse hQuiet =>
          refine iff_of_true ⟨.inr ⟨?_, ?_⟩, fun hLow hHigh => ?_⟩ fun _ => ⟨?_, fun other hOther => ?_⟩
          · rw [final_modify, State.own_put, State.own_checked]
            omega
          · rw [final_modify, State.store_put, Account.of_goldbank (isInt_toInt _).toInt_eq, hExact]
          · rw [final_modify, State.store_put, Account.of_goldbank (isInt_toInt _).toInt_eq]
            omega
          · unfold deposit at hSome
            omega
          · rw [hSurrendered] at hOther
            cases hOther
            exact hQuiet
  · rw [bankAdd_refused hPays]
    exact iff_of_true .refl fun h => absurd h hPays

end Add

/-- What a request needs to be carried out as a whole. -/
def BankRequest.Held (cfg : BankConfig) (quests : Checks) (s : State Account) : BankRequest → Prop
  | .add amount => PaysIn cfg s amount → PaymentHeld quests s amount
  | .take amount => PaysOut s amount → Fits cfg.toConfig s.body.inventory 1 (toInt amount)

theorem bankRequest_moved_iff (cfg : BankConfig) (quests : Checks) (s : State Account)
    (request : BankRequest) :
    GoldMoved cfg (request.wanted s) s (final (bankRequest cfg quests request) s) ↔
      request.Held cfg quests s := by
  cases request with
  | add amount => exact bankAdd_moved_iff cfg quests s amount
  | take amount => exact bankTake_moved_iff cfg quests s amount

def smallBank : BankConfig := { smallWorld with maxBankGold := 1000 }

/-- Ten are drawn and a full stack takes none of them. -/
theorem full_stack_loses_gold :
    ¬GoldMoved smallBank (-10) (beside (holding .bank [.of 1 100]) (.of 50))
      (final (bankRequest smallBank idle (.take 10)) (beside (holding .bank [.of 1 100]) (.of 50))) :=
  fun h => absurd h.sum (by decide)

end Etheos.Stores
