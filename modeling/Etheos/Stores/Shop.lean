import Etheos.Goods.Handlers
import Etheos.Stores.Carried

/-! What is bought, sold and crafted in shops. -/
namespace Etheos.Stores

open Characters CharacterItem General
open Goods (ShopTradeItem ShopCraftIngredient ShopCraftItem)

/-- The data of the one spoken to. -/
structure Shop where
  shopTrade : List ShopTradeItem
  shopCraft : List ShopCraftItem
  deriving DecidableEq

structure ShopConfig extends Config where
  maxShopBuy : Int

section Handlers

variable (cfg : ShopConfig) (quests : Checks)

def hasIngredients (self : Body) (checkitem : ShopCraftItem) : Bool :=
  checkitem.ingredients.all fun ingredient =>
    ¬hasItem self (toShort ingredient.id) false < ingredient.amount.toNat

/-- The ingredients of a craft are taken one after the other. -/
def takeIngredients : List ShopCraftIngredient → Prog Shop Unit
  | [] => return ()
  | ingredient :: ingredients => do
      discard (delItem quests (toShort ingredient.id) ingredient.amount.toNat)
      takeIngredients ingredients

/-- One round of the loop of `Shop_Create`. -/
def craft (item : Int) (checkitem : ShopCraftItem) : Prog Shop Unit := do
  let s ← get
  if checkitem.id = item ∧ hasIngredients s.body checkitem then
    takeIngredients quests checkitem.ingredients
    discard (addItem cfg.toConfig quests (toShort checkitem.id) 1)
  else return ()

/-- The loop of `Shop_Create`, which goes on after a match. -/
def craftAll (item : Int) : List ShopCraftItem → Prog Shop Unit
  | [] => return ()
  | checkitem :: rest => do
      craft cfg quests item checkitem
      craftAll item rest

def shopCreate (item : Int) : Prog Shop Unit := do
  let s ← get
  if s.body.trading then return ()
  else if s.body.npcType = .shop then craftAll cfg quests (toShort item) s.store.shopCraft
  else return ()

def shopBuy (item amount : Int) : Prog Shop Unit := do
  let s ← get
  let self := s.body
  let item := toShort item
  let amount := toInt amount
  if self.trading then return ()
  else if amount ≤ 0 ∨ cfg.maxShopBuy < amount then return ()
  else if self.maxweight ≤ self.weight then return ()
  else if self.npcType ≠ .shop then return ()
  else
    match s.store.shopTrade.find? fun checkitem => checkitem.id = item ∧ checkitem.buy ≠ 0 with
    | none => return ()
    | some checkitem =>
        let cost := amount * checkitem.buy
        if cost < 0 ∨ cfg.maxItem < cost then return ()
        else if hasItem self 1 false < cost then return ()
        else
          discard (delItem quests 1 cost)
          discard (addItem cfg.toConfig quests item amount)

def shopSell (item amount : Int) : Prog Shop Unit := do
  let s ← get
  let self := s.body
  let item := toShort item
  let amount := toInt amount
  if self.trading then return ()
  else if amount ≤ 0 ∨ cfg.maxItem < amount then return ()
  else if self.npcType ≠ .shop then return ()
  else
    match s.store.shopTrade.find? fun checkitem => checkitem.id = item ∧ checkitem.sell ≠ 0 with
    | none => return ()
    | some checkitem =>
        let owed := amount * checkitem.sell
        if owed < 0 ∨ toInt (cfg.maxItem - hasItem self 1 false) < owed then return ()
        else if hasItem self item false < amount then return ()
        else
          discard (delItem quests item amount)
          discard (addItem cfg.toConfig quests 1 owed)

end Handlers

/-- An amount of one item, and nothing of the others. -/
def stack (id n : Int) : Int → Int := fun x => if x = id then n else 0

theorem stack_nonneg {n : Int} (h : 0 ≤ n) (id x : Int) : 0 ≤ stack id n x := by
  unfold stack
  split
  · exact h
  · exact Int.le_refl 0

theorem stack_mono {n m : Int} (h : n ≤ m) (id x : Int) : stack id n x ≤ stack id m x := by
  unfold stack
  split
  · exact h
  · exact Int.le_refl 0

/-- Nothing changes, or exactly the price is paid, and then exactly the goods
arrive. -/
def Exchanged (price goods : Int → Int) (s paid s' : State Shop) : Prop :=
  s' = s ∨ ∀ x, paid.own x = s.own x - price x ∧ s'.own x = paid.own x + goods x

/-- What a whole exchange leaves behind. -/
theorem Exchanged.own {price goods : Int → Int} {s paid s' : State Shop}
    (h : Exchanged price goods s paid s') :
    s' = s ∨ ∀ x, s'.own x = s.own x - price x + goods x := by
  refine h.imp_right fun hBoth x => ?_
  obtain ⟨hPaid, hGoods⟩ := hBoth x
  rw [hGoods, hPaid]

section Exchange

variable {cfg : ShopConfig} {quests : Checks} {s s1 : State Shop} {price : Int → Int} {id n : Int}
  {pay : Prog Shop Unit}

/-- Nothing happens where an item is refused, and only there. -/
theorem addItem_same_iff (hPos : 0 < n) :
    final (discard (addItem cfg.toConfig quests id n)) s = s ↔
      Refused cfg.toConfig s.body.inventory id n := by
  rw [addItem_last, ← received_eq_none_iff hPos]
  cases received cfg.toConfig s.body.inventory id n with
  | none => simp
  | some inventory =>
      refine iff_of_false (fun h => ?_) (by simp)
      have hChecks := congrArg State.checks h
      simp [State.checked, State.carry] at hChecks

variable (cfg quests id n) in
theorem addItem_checks : s.checks ≤ (final (discard (addItem cfg.toConfig quests id n)) s).checks := by
  rw [addItem_last]
  cases received cfg.toConfig s.body.inventory id n with
  | none => exact Nat.le_refl _
  | some inventory => exact Nat.le_succ _

/-- Where the payment is interrupted, the goods are missing. -/
theorem not_exchanged_of_error (hPos : 0 < n) (hPay : pay s = .error () s1)
    (hChecks : s.checks < s1.checks) :
    ¬Exchanged price (stack id n) s (final pay s)
      (final (pay >>= fun _ => discard (addItem cfg.toConfig quests id n)) s) := by
  rw [final_bind_of_error hPay, final_of_error hPay]
  rintro (rfl | hBoth)
  · exact Nat.lt_irrefl _ hChecks
  · have hGoods := (hBoth id).2
    rw [stack, if_pos rfl] at hGoods
    omega

/-- A payment that goes through is half of an exchange. The other half is room
for the goods. -/
theorem exchanged_iff_of_ok (hn : IsInt n) (hPos : 0 < n) (hPay : pay s = .ok () s1)
    (hChecks : s1 = s ∨ s.checks < s1.checks) :
    Exchanged price (stack id n) s (final pay s)
        (final (pay >>= fun _ => discard (addItem cfg.toConfig quests id n)) s) ↔
      s1 = s ∧ Refused cfg.toConfig s.body.inventory id n ∨
        (∀ x, s1.own x = s.own x - price x) ∧ Fits cfg.toConfig s1.body.inventory id n := by
  rw [final_bind_of_ok hPay, final_of_ok hPay]
  obtain ⟨hOthers, hFits, -⟩ := @addItem_own Shop cfg.toConfig quests s1 id n hn hPos
  refine or_congr ?_ ?_
  · constructor
    · intro hSame
      obtain rfl | hMore := hChecks
      · exact ⟨rfl, (addItem_same_iff hPos).mp hSame⟩
      · have hLess : s1.checks ≤ _ := addItem_checks cfg quests id n
        rw [hSame] at hLess
        omega
    · rintro ⟨rfl, hRefused⟩
      exact (addItem_same_iff hPos).mpr hRefused
  · rw [forall_and, ← hFits]
    refine and_congr_right fun _ => ⟨fun hGoods => ?_, fun hOwn x => ?_⟩
    · have hOwn := hGoods id
      rwa [stack, if_pos rfl] at hOwn
    · unfold stack
      split
      case isTrue hx =>
        subst hx
        exact hOwn
      case isFalse hx => rw [hOthers x hx, Int.add_zero]

/-- The payment goes through, and the goods fit in behind it. -/
def Traded (cfg : ShopConfig) (quests : Checks) (s : State Shop) (paid n given m : Int) : Prop :=
  ∃ inventory, surrendered s.body.inventory paid n = some inventory ∧
    ¬(s.carry inventory).Throws quests ∧
      Fits cfg.toConfig ((s.carry inventory).checked quests).body.inventory given m

theorem delItem_discard_apply {paid : Int} :
    discard (delItem quests paid n) s =
      match surrendered s.body.inventory paid n with
      | none => .ok () s
      | some inventory =>
          if (s.carry inventory).Throws quests then .error () ((s.carry inventory).checked quests)
          else .ok () ((s.carry inventory).checked quests) := by
  have hApply : delItem quests paid n s = _ := delItem_apply paid n
  change (delItem quests paid n >>= fun _ => pure PUnit.unit) s = _
  cases hTaken : surrendered s.body.inventory paid n with
  | none =>
      rw [hTaken] at hApply
      exact bind_of_ok hApply
  | some inventory =>
      rw [hTaken] at hApply
      by_cases hThrows : (s.carry inventory).Throws quests
      · rw [bind_of_error (hApply.trans (if_pos hThrows))]
        exact (if_pos hThrows).symm
      · rw [bind_of_ok (hApply.trans (if_neg hThrows))]
        exact (if_neg hThrows).symm

/-- One stack for another. -/
theorem exchanged_iff_traded {paid m : Int} (hPos : 0 < n) (hEnough : n ≤ amountOf s.body.inventory paid)
    (hm : IsInt m) (hGoods : 0 < m) :
    Exchanged (stack paid n) (stack id m) s (final (discard (delItem quests paid n)) s)
        (final (discard (delItem quests paid n) >>= fun _ => discard (addItem cfg.toConfig quests id m)) s) ↔
      Traded cfg quests s paid n id m := by
  obtain ⟨inventory, hTaken⟩ := surrendered_isSome hPos hEnough
  have hApply : discard (delItem quests paid n) s = _ := delItem_discard_apply
  have hMore : s.checks < ((s.carry inventory).checked quests).checks := Nat.lt_succ_self _
  rw [hTaken] at hApply
  dsimp only at hApply
  by_cases hThrows : (s.carry inventory).Throws quests
  · rw [if_pos hThrows] at hApply
    refine iff_of_false (not_exchanged_of_error hGoods hApply hMore) ?_
    rintro ⟨other, hOther, hQuiet, -⟩
    obtain rfl := Option.some.inj (hTaken.symm.trans hOther)
    exact hQuiet hThrows
  · rw [if_neg hThrows] at hApply
    rw [exchanged_iff_of_ok hm hGoods hApply (.inr hMore)]
    constructor
    · rintro (⟨hSame, -⟩ | ⟨-, hFits⟩)
      · rw [hSame] at hMore
        exact absurd hMore (Nat.lt_irrefl _)
      · exact ⟨inventory, hTaken, hThrows, hFits⟩
    · rintro ⟨other, hOther, -, hFits⟩
      obtain rfl := Option.some.inj (hTaken.symm.trans hOther)
      refine .inr ⟨fun x => ?_, hFits⟩
      rw [State.own_checked, State.own_carry, surrendered_total hEnough hTaken]
      unfold stack
      omega

/-- A request with checks before the exchange. Where they are not passed, nothing happens. -/
theorem exchanged_iff_of_checks {Passes : Prop} {paid m : Int} {request : Prog Shop Unit}
    (hRefused : ¬Passes → final request s = s)
    (hDone : Passes → final request s = final (discard (delItem quests paid n) >>= fun _ =>
      discard (addItem cfg.toConfig quests id m)) s)
    (hPassed : Passes → 0 < n ∧ n ≤ amountOf s.body.inventory paid ∧ IsInt m ∧ 0 < m) :
    Exchanged (stack paid n) (stack id m) s (final (discard (delItem quests paid n)) s)
        (final request s) ↔ (Passes → Traded cfg quests s paid n id m) := by
  by_cases hPasses : Passes
  · obtain ⟨hPos, hEnough, hm, hGoods⟩ := hPassed hPasses
    rw [hDone hPasses, exchanged_iff_traded hPos hEnough hm hGoods]
    exact ⟨fun h _ => h, fun h => h hPasses⟩
  · rw [hRefused hPasses]
    exact iff_of_true (.inl rfl) fun h => absurd h hPasses

end Exchange

/-- What is found in the list for an item that is bought from the shop. -/
def bought (s : State Shop) (item : Int) : Option ShopTradeItem :=
  s.store.shopTrade.find? fun checkitem => checkitem.id = toShort item ∧ checkitem.buy ≠ 0

/-- What is found in the list for an item that is sold to the shop. -/
def sold (s : State Shop) (item : Int) : Option ShopTradeItem :=
  s.store.shopTrade.find? fun checkitem => checkitem.id = toShort item ∧ checkitem.sell ≠ 0

def cost (s : State Shop) (item amount : Int) : Int :=
  (bought s item).elim 0 fun checkitem => toInt amount * checkitem.buy

def owed (s : State Shop) (item amount : Int) : Int :=
  (sold s item).elim 0 fun checkitem => toInt amount * checkitem.sell

/-- The checks of `Shop_Buy` are passed. -/
def Buys (cfg : ShopConfig) (s : State Shop) (item amount : Int) : Prop :=
  s.body.trading = false ∧ 0 < toInt amount ∧ toInt amount ≤ cfg.maxShopBuy ∧
    s.body.weight < s.body.maxweight ∧ s.body.npcType = .shop ∧ (bought s item).isSome ∧
      0 ≤ cost s item amount ∧ cost s item amount ≤ cfg.maxItem ∧
        cost s item amount ≤ hasItem s.body 1 false

/-- The checks of `Shop_Sell` are passed. -/
def Sells (cfg : ShopConfig) (s : State Shop) (item amount : Int) : Prop :=
  s.body.trading = false ∧ 0 < toInt amount ∧ toInt amount ≤ cfg.maxItem ∧
    s.body.npcType = .shop ∧ (sold s item).isSome ∧ 0 ≤ owed s item amount ∧
      owed s item amount ≤ toInt (cfg.maxItem - hasItem s.body 1 false) ∧
        toInt amount ≤ hasItem s.body (toShort item) false

section Trades

variable {cfg : ShopConfig} {quests : Checks} {s : State Shop} {item amount : Int}

theorem shopBuy_refused (h : ¬Buys cfg s item amount) :
    final (shopBuy cfg quests item amount) s = s := by
  unfold Buys cost at h
  unfold shopBuy
  rw [final_read]
  change final (if _ then _ else if _ then _ else if _ then _ else if _ then _ else
    match bought s item with | none => _ | some _ => _) s = s
  split
  · rfl
  case isFalse hTrading =>
    split
    · rfl
    split
    · rfl
    split
    · rfl
    case isFalse hNpc =>
      cases hFound : bought s item with
      | none => rfl
      | some checkitem =>
          rw [hFound] at h
          dsimp only
          split
          · rfl
          split
          · rfl
          · refine absurd ⟨eq_false_of_ne_true hTrading, ?_⟩ h
            simp only [Option.elim_some, Option.isSome_some]
            exact ⟨by omega, by omega, by omega, Decidable.not_not.mp hNpc, trivial, by omega, by omega,
              by omega⟩

theorem shopBuy_buys (h : Buys cfg s item amount) :
    final (shopBuy cfg quests item amount) s =
      final (discard (delItem quests 1 (cost s item amount)) >>= fun _ =>
        discard (addItem cfg.toConfig quests (toShort item) (toInt amount))) s := by
  obtain ⟨hTrading, hPos, hMax, hWeight, hNpc, hSome, hLow, hHigh, hGold⟩ := h
  obtain ⟨checkitem, hFound⟩ := Option.isSome_iff_exists.mp hSome
  unfold cost at *
  rw [hFound] at hLow hHigh hGold ⊢
  rw [Option.elim_some] at hLow hHigh hGold
  unfold shopBuy
  rw [final_read]
  dsimp only
  rw [hTrading, if_neg Bool.false_ne_true, if_neg (by omega), if_neg (by omega), if_neg (by simp [hNpc])]
  change final (match bought s item with | none => _ | some _ => _) s = _
  rw [hFound]
  dsimp only
  rw [if_neg (by omega), if_neg (by omega)]
  rfl

/-- What costs anything in a shop is not free. -/
theorem mul_pos_of_found {price : ShopTradeItem → Int} {checkitem : ShopTradeItem}
    (hFound : s.store.shopTrade.find? (fun other => other.id = toShort item ∧ price other ≠ 0) =
      some checkitem) (hPos : 0 < toInt amount) (hLow : 0 ≤ toInt amount * price checkitem) :
    0 < toInt amount * price checkitem := by
  have hPrice := List.find?_some hFound
  simp only [decide_eq_true_eq] at hPrice
  exact lt_of_le_of_ne hLow (mul_ne_zero (by omega) hPrice.2).symm

/-- A purchase is exact only if nothing stops the payment and the goods fit in. -/
theorem shopBuy_exchanged_iff (cfg : ShopConfig) (quests : Checks) (s : State Shop) (item amount : Int) :
    Exchanged (stack 1 (cost s item amount)) (stack (toShort item) (toInt amount)) s
        (final (discard (delItem quests 1 (cost s item amount))) s)
        (final (shopBuy cfg quests item amount) s) ↔
      (Buys cfg s item amount →
        Traded cfg quests s 1 (cost s item amount) (toShort item) (toInt amount)) := by
  apply exchanged_iff_of_checks shopBuy_refused shopBuy_buys
  intro ⟨hTrading, hPos, _, _, _, hSome, hLow, _, hGold⟩
  have hCost : 0 < cost s item amount := by
    obtain ⟨checkitem, hFound⟩ := Option.isSome_iff_exists.mp hSome
    unfold cost at hLow ⊢
    rw [hFound] at hLow ⊢
    exact mul_pos_of_found hFound hPos hLow
  exact ⟨hCost, hasItem_eq_amountOf hTrading 1 false ▸ hGold, isInt_toInt amount, hPos⟩

theorem shopSell_refused (h : ¬Sells cfg s item amount) :
    final (shopSell cfg quests item amount) s = s := by
  unfold Sells owed at h
  unfold shopSell
  rw [final_read]
  change final (if _ then _ else if _ then _ else if _ then _ else
    match sold s item with | none => _ | some _ => _) s = s
  split
  · rfl
  case isFalse hTrading =>
    split
    · rfl
    split
    · rfl
    case isFalse hNpc =>
      cases hFound : sold s item with
      | none => rfl
      | some checkitem =>
          rw [hFound] at h
          dsimp only
          split
          · rfl
          split
          · rfl
          · refine absurd ⟨eq_false_of_ne_true hTrading, ?_⟩ h
            simp only [Option.elim_some, Option.isSome_some]
            exact ⟨by omega, by omega, Decidable.not_not.mp hNpc, trivial, by omega, by omega, by omega⟩

theorem shopSell_sells (h : Sells cfg s item amount) :
    final (shopSell cfg quests item amount) s =
      final (discard (delItem quests (toShort item) (toInt amount)) >>= fun _ =>
        discard (addItem cfg.toConfig quests 1 (owed s item amount))) s := by
  obtain ⟨hTrading, hPos, hMax, hNpc, hSome, hLow, hHigh, hItems⟩ := h
  obtain ⟨checkitem, hFound⟩ := Option.isSome_iff_exists.mp hSome
  unfold owed at *
  rw [hFound] at hLow hHigh ⊢
  rw [Option.elim_some] at hLow hHigh
  unfold shopSell
  rw [final_read]
  dsimp only
  rw [hTrading, if_neg Bool.false_ne_true, if_neg (by omega), if_neg (by simp [hNpc])]
  change final (match sold s item with | none => _ | some _ => _) s = _
  rw [hFound]
  dsimp only
  rw [if_neg (by omega), if_neg (by omega)]
  rfl

/-- A sale is exact only if nothing stops the delivery and the gold fits in. -/
theorem shopSell_exchanged_iff (cfg : ShopConfig) (quests : Checks) (s : State Shop) (item amount : Int) :
    Exchanged (stack (toShort item) (toInt amount)) (stack 1 (owed s item amount)) s
        (final (discard (delItem quests (toShort item) (toInt amount))) s)
        (final (shopSell cfg quests item amount) s) ↔
      (Sells cfg s item amount →
        Traded cfg quests s (toShort item) (toInt amount) 1 (owed s item amount)) := by
  apply exchanged_iff_of_checks shopSell_refused shopSell_sells
  intro ⟨hTrading, hPos, _, _, hSome, hLow, hHigh, hItems⟩
  have hOwed : 0 < owed s item amount := by
    obtain ⟨checkitem, hFound⟩ := Option.isSome_iff_exists.mp hSome
    unfold owed at hLow ⊢
    rw [hFound] at hLow ⊢
    exact mul_pos_of_found hFound hPos hLow
  have hOwedInt : IsInt (owed s item amount) := by
    have hRoom := isInt_toInt (cfg.maxItem - hasItem s.body 1 false)
    unfold IsInt at hRoom ⊢
    omega
  exact ⟨hPos, hasItem_eq_amountOf hTrading (toShort item) false ▸ hItems, hOwedInt, hOwed⟩

end Trades

/-- What a list of ingredients asks for of an item, in all its entries. -/
def listed (x : Int) : List ShopCraftIngredient → Int
  | [] => 0
  | ingredient :: ingredients =>
      stack (toShort ingredient.id) ingredient.amount.toNat x + listed x ingredients

theorem listed_nonneg (x : Int) (ingredients : List ShopCraftIngredient) : 0 ≤ listed x ingredients := by
  induction ingredients with
  | nil => exact Int.le_refl 0
  | cons ingredient ingredients ih => exact Int.add_nonneg (stack_nonneg (Int.natCast_nonneg _) _ _) ih

/-- One ingredient after the other is there in full, and no quest check stops the
payment. -/
inductive Paid (quests : Checks) : List ShopCraftIngredient → State Shop → State Shop → Prop
  | done (s : State Shop) : Paid quests [] s s
  | free {ingredient ingredients s s'} (hFree : ingredient.amount = 0) :
      Paid quests ingredients s s' → Paid quests (ingredient :: ingredients) s s'
  | taken {ingredient ingredients s s'} {inventory : List CharacterItem}
      (hEnough : ingredient.amount.toNat ≤ amountOf s.body.inventory (toShort ingredient.id))
      (hTaken : surrendered s.body.inventory (toShort ingredient.id) ingredient.amount.toNat =
        some inventory)
      (hQuiet : ¬(s.carry inventory).Throws quests) :
      Paid quests ingredients ((s.carry inventory).checked quests) s' →
        Paid quests (ingredient :: ingredients) s s'

section Payment

variable {quests : Checks} {ingredient : ShopCraftIngredient} {ingredients : List ShopCraftIngredient}
  {s s' : State Shop}

theorem takeIngredients_cons :
    takeIngredients quests (ingredient :: ingredients) s =
      match surrendered s.body.inventory (toShort ingredient.id) ingredient.amount.toNat with
      | none => takeIngredients quests ingredients s
      | some inventory =>
          if (s.carry inventory).Throws quests then .error () ((s.carry inventory).checked quests)
          else takeIngredients quests ingredients ((s.carry inventory).checked quests) := by
  have hApply : discard (delItem quests (toShort ingredient.id) ingredient.amount.toNat) s = _ :=
    delItem_discard_apply
  change (discard (delItem quests _ _) >>= fun _ => takeIngredients quests ingredients) s = _
  cases hTaken : surrendered s.body.inventory (toShort ingredient.id) ingredient.amount.toNat with
  | none =>
      rw [hTaken] at hApply
      exact bind_of_ok hApply
  | some inventory =>
      rw [hTaken] at hApply
      by_cases hThrows : (s.carry inventory).Throws quests
      · rw [bind_of_error (hApply.trans (if_pos hThrows))]
        exact (if_pos hThrows).symm
      · rw [bind_of_ok (hApply.trans (if_neg hThrows))]
        exact (if_neg hThrows).symm

theorem takeIngredients_final :
    final (takeIngredients quests (ingredient :: ingredients)) s =
      match surrendered s.body.inventory (toShort ingredient.id) ingredient.amount.toNat with
      | none => final (takeIngredients quests ingredients) s
      | some inventory =>
          if (s.carry inventory).Throws quests then (s.carry inventory).checked quests
          else final (takeIngredients quests ingredients) ((s.carry inventory).checked quests) :=
  delItem_final _ _ _

variable (quests) in
/-- What is gone behind `DelItem`: what is asked for, as far as it is there. -/
theorem own_surrendered {id n : Int} {inventory : List CharacterItem}
    (h : surrendered s.body.inventory id n = some inventory) (x : Int) :
    ((s.carry inventory).checked quests).own x =
      s.own x - stack id (min n (amountOf s.body.inventory id)) x := by
  rw [State.own_checked, State.own_carry]
  unfold stack
  split
  case isTrue hx =>
    subst hx
    rw [surrendered_least h]
    omega
  case isFalse hx =>
    have hPos := surrendered_pos h
    unfold surrendered at h
    rw [if_neg (by omega)] at h
    obtain ⟨-, -, hOthers⟩ := del_cases hPos h
    rw [(hOthers x hx).2]
    omega

variable (quests) in
/-- A payment that goes on is counted, unless nothing happens in it. -/
theorem takeIngredients_checks (ingredients : List ShopCraftIngredient) (s : State Shop) :
    takeIngredients quests ingredients s = .ok () s ∨
      s.checks < (final (takeIngredients quests ingredients) s).checks := by
  induction ingredients generalizing s with
  | nil => exact .inl rfl
  | cons ingredient ingredients ih =>
      rw [takeIngredients_cons, takeIngredients_final]
      cases surrendered s.body.inventory (toShort ingredient.id) ingredient.amount.toNat with
      | none => exact ih s
      | some inventory =>
          have hFirst : s.checks < ((s.carry inventory).checked quests).checks := Nat.lt_succ_self _
          right
          dsimp only
          split
          · exact hFirst
          · obtain hSame | hMore := ih ((s.carry inventory).checked quests)
            · rw [final_of_ok hSame]
              exact hFirst
            · exact hFirst.trans hMore

variable (quests) in
/-- No more is taken than what is listed. -/
theorem takeIngredients_own (ingredients : List ShopCraftIngredient) (s : State Shop) (x : Int) :
    s.own x - listed x ingredients ≤ (final (takeIngredients quests ingredients) s).own x := by
  induction ingredients generalizing s with
  | nil => simp [takeIngredients, listed]
  | cons ingredient ingredients ih =>
      rw [takeIngredients_final]
      have hRest := listed_nonneg x ingredients
      have hListed : 0 ≤ stack (toShort ingredient.id) ingredient.amount.toNat x := 
        stack_nonneg (Int.natCast_nonneg _) _ x
      unfold listed
      cases hTaken : surrendered s.body.inventory (toShort ingredient.id) ingredient.amount.toNat with
      | none =>
          have hNext := ih s
          dsimp only
          omega
      | some inventory =>
          have hNext := ih ((s.carry inventory).checked quests)
          have hOwn := own_surrendered quests hTaken x
          have hLess := stack_mono
            (min_le_left (ingredient.amount.toNat : Int) (amountOf s.body.inventory (toShort ingredient.id)))
            (toShort ingredient.id) x
          dsimp only
          split
          · omega
          · omega

theorem Paid.ok (h : Paid quests ingredients s s') :
    takeIngredients quests ingredients s = .ok () s' := by
  induction h with
  | done s => rfl
  | free hFree hRest ih =>
      rw [takeIngredients_cons, surrendered, if_pos (by simp [hFree])]
      exact ih
  | taken hEnough hTaken hQuiet hRest ih =>
      rw [takeIngredients_cons, hTaken]
      dsimp only
      rw [if_neg hQuiet]
      exact ih

/-- A payment that goes through is what is listed exactly if each ingredient was
there in full. -/
theorem paid_iff (h : takeIngredients quests ingredients s = .ok () s') :
    (∀ x, s'.own x = s.own x - listed x ingredients) ↔ Paid quests ingredients s s' := by
  induction ingredients generalizing s with
  | nil =>
      cases h
      exact iff_of_true (fun x => by simp [listed]) (.done _)
  | cons ingredient ingredients ih =>
      rw [takeIngredients_cons] at h
      constructor
      · intro hOwn
        have hHere := hOwn (toShort ingredient.id)
        unfold listed stack at hHere
        rw [if_pos rfl] at hHere
        cases hTaken : surrendered s.body.inventory (toShort ingredient.id) ingredient.amount.toNat with
        | none =>
            rw [hTaken] at h
            have hBound := takeIngredients_own quests ingredients s (toShort ingredient.id)
            rw [final_of_ok h] at hBound
            have hZero : ingredient.amount = 0 := UInt8.toNat_inj.mp (by simp; omega)
            refine .free hZero ((ih h).mp fun x => ?_)
            rw [hOwn x]
            simp [listed, stack, hZero]
        | some inventory =>
            rw [hTaken] at h
            dsimp only at h
            split at h
            · cases h
            case isFalse hQuiet =>
              have hBound := takeIngredients_own quests ingredients
                ((s.carry inventory).checked quests) (toShort ingredient.id)
              rw [final_of_ok h, own_surrendered quests hTaken, stack, if_pos rfl] at hBound
              have hEnough : (ingredient.amount.toNat : Int) ≤
                  amountOf s.body.inventory (toShort ingredient.id) := by omega
              refine .taken hEnough hTaken hQuiet ((ih h).mp fun x => ?_)
              rw [hOwn x, own_surrendered quests hTaken, min_eq_left hEnough, listed]
              omega
      · intro hPaid
        cases hPaid with
        | free hFree hRest =>
            intro x
            rw [(ih hRest.ok).mpr hRest x]
            simp [listed, stack, hFree]
        | taken hEnough hTaken hQuiet hRest =>
            intro x
            rw [(ih hRest.ok).mpr hRest x, own_surrendered quests hTaken, min_eq_left hEnough, listed]
            omega

variable (quests) in
theorem takeIngredients_grows (ingredients : List ShopCraftIngredient) (s : State Shop) :
    s.checks ≤ (final (takeIngredients quests ingredients) s).checks := by
  obtain hSame | hMore := takeIngredients_checks quests ingredients s
  · rw [final_of_ok hSame]
  · exact hMore.le

/-- What a character has can be taken. -/
theorem surrendered_ne_none {id n : Int} (hPos : 0 < n) (h : n ≤ hasItem s.body id false) :
    surrendered s.body.inventory id n ≠ none := by
  unfold surrendered
  rw [if_neg (by omega)]
  unfold hasItem at h
  cases hFound : s.body.inventory.find? (·.id = id) with
  | none =>
      rw [hFound] at h
      dsimp only at h
      omega
  | some item => exact del_ne_none hFound n

variable (quests) in
/-- Only a list that asks for nothing leaves everything as it is. -/
theorem takeIngredients_same_iff
    (hHas : ∀ ingredient ∈ ingredients,
      (ingredient.amount.toNat : Int) ≤ hasItem s.body (toShort ingredient.id) false) :
    takeIngredients quests ingredients s = .ok () s ↔ ∀ ingredient ∈ ingredients, ingredient.amount = 0 := by
  induction ingredients with
  | nil => exact iff_of_true rfl (by simp)
  | cons ingredient ingredients ih =>
      obtain ⟨hHere, hRest⟩ := List.forall_mem_cons.mp hHas
      rw [List.forall_mem_cons, ← ih hRest]
      by_cases hFree : ingredient.amount = 0
      · rw [takeIngredients_cons, surrendered, if_pos (by simp [hFree])]
        simp [hFree]
      · have hPos : 0 < (ingredient.amount.toNat : Int) := by
          have hNat : ingredient.amount.toNat ≠ 0 := fun h => hFree (UInt8.toNat_inj.mp h)
          omega
        obtain ⟨inventory, hTaken⟩ := Option.ne_none_iff_exists'.mp (surrendered_ne_none hPos hHere)
        refine iff_of_false (fun h => ?_) fun h => hFree h.1
        have hGrows := takeIngredients_grows quests ingredients
          ((s.carry inventory).checked quests)
        have hFirst : s.checks < ((s.carry inventory).checked quests).checks := Nat.lt_succ_self _
        rw [takeIngredients_cons, hTaken] at h
        dsimp only at h
        split at h
        · cases h
        · rw [final_of_ok h] at hGrows
          omega

end Payment

/-- A recipe is carried out in this round of the loop. -/
def Crafts (item : Int) (checkitem : ShopCraftItem) (s : State Shop) : Prop :=
  checkitem.id = item ∧ hasIngredients s.body checkitem

/-- All ingredients can be taken in full, one after the other, and the item fits
in behind them. Or it costs nothing and is refused. -/
def Crafted (cfg : ShopConfig) (quests : Checks) (checkitem : ShopCraftItem) (s : State Shop) : Prop :=
  (∃ paid, Paid quests checkitem.ingredients s paid ∧
    Fits cfg.toConfig paid.body.inventory (toShort checkitem.id) 1) ∨
  (∀ ingredient ∈ checkitem.ingredients, ingredient.amount = 0) ∧
    Refused cfg.toConfig s.body.inventory (toShort checkitem.id) 1

theorem craft_of_crafts {cfg : ShopConfig} {quests : Checks} {item : Int} {checkitem : ShopCraftItem}
    {s : State Shop} (h : Crafts item checkitem s) :
    final (craft cfg quests item checkitem) s =
      final (takeIngredients quests checkitem.ingredients >>= fun _ =>
        discard (addItem cfg.toConfig quests (toShort checkitem.id) 1)) s := by
  unfold craft
  rw [final_read]
  exact congrArg (final · s) (if_pos h)

theorem craft_of_not {cfg : ShopConfig} {quests : Checks} {item : Int} {checkitem : ShopCraftItem}
    {s : State Shop} (h : ¬Crafts item checkitem s) :
    craft cfg quests item checkitem s = .ok () s :=
  congrFun (if_neg h) s

theorem craft_exchanged_iff (cfg : ShopConfig) (quests : Checks) (item : Int) (checkitem : ShopCraftItem)
    (s : State Shop) :
    Exchanged (listed · checkitem.ingredients) (stack (toShort checkitem.id) 1) s
        (final (takeIngredients quests checkitem.ingredients) s)
        (final (craft cfg quests item checkitem) s) ↔
      (Crafts item checkitem s → Crafted cfg quests checkitem s) := by
  by_cases hCrafts : Crafts item checkitem s
  · rw [craft_of_crafts hCrafts, forall_prop_of_true hCrafts]
    have hHas : ∀ ingredient ∈ checkitem.ingredients,
        (ingredient.amount.toNat : Int) ≤ hasItem s.body (toShort ingredient.id) false := by
      simpa [hasIngredients] using hCrafts.2
    have hChecks := takeIngredients_checks quests checkitem.ingredients s
    cases hPay : takeIngredients quests checkitem.ingredients s with
    | error e s1 =>
        rw [final_of_error hPay, hPay] at hChecks
        obtain hSame | hMore := hChecks
        · cases hSame
        refine iff_of_false (not_exchanged_of_error (by decide) hPay hMore) ?_
        rintro (⟨paid, hPaid, -⟩ | ⟨hFree, -⟩)
        · cases hPay.symm.trans hPaid.ok
        · cases hPay.symm.trans ((takeIngredients_same_iff quests hHas).mpr hFree)
    | ok u s1 =>
        rw [final_of_ok hPay] at hChecks
        have hSame : s1 = s ↔ ∀ ingredient ∈ checkitem.ingredients, ingredient.amount = 0 := by
          rw [← takeIngredients_same_iff quests hHas, hPay]
          simp
        rw [exchanged_iff_of_ok (by decide) (by decide) hPay
          (hChecks.imp_left fun h => by simpa using hPay.symm.trans h), paid_iff hPay, hSame, or_comm]
        refine or_congr_left ⟨fun h => ⟨s1, h⟩, ?_⟩
        rintro ⟨paid, hPaid, hFits⟩
        cases hPay.symm.trans hPaid.ok
        exact ⟨hPaid, hFits⟩
  · rw [final_of_ok (craft_of_not hCrafts)]
    exact iff_of_true (.inl rfl) fun h => absurd h hCrafts

inductive ShopRequest
  | create (item : Int)
  | buy (item amount : Int)
  | sell (item amount : Int)
  deriving DecidableEq

/-- The checks of `Shop_Create` are passed. -/
def Creates (s : State Shop) : Prop := s.body.trading = false ∧ s.body.npcType = .shop

/-- Something holds of each round of the loop of `Shop_Create` that is reached. -/
def EachRound (cfg : ShopConfig) (quests : Checks) (item : Int) (p : ShopCraftItem → State Shop → Prop) :
    List ShopCraftItem → State Shop → Prop
  | [], _ => True
  | checkitem :: rest, s =>
      p checkitem s ∧
        ∀ s', craft cfg quests item checkitem s = .ok () s' → EachRound cfg quests item p rest s'

/-- A recipe of the shop is exchanged for what it makes. -/
def CraftExact (cfg : ShopConfig) (quests : Checks) (item : Int) (checkitem : ShopCraftItem)
    (s : State Shop) : Prop :=
  Exchanged (listed · checkitem.ingredients) (stack (toShort checkitem.id) 1) s
    (final (takeIngredients quests checkitem.ingredients) s)
    (final (craft cfg quests item checkitem) s)

/-- What is asked for is exchanged exactly, or nothing changes. If a shop has more
than one recipe for an item, each of them is followed, one after the other. -/
def ShopRequest.Exact (cfg : ShopConfig) (quests : Checks) (s : State Shop) : ShopRequest → Prop
  | .create item =>
      (Creates s → EachRound cfg quests (toShort item) (CraftExact cfg quests (toShort item))
        s.store.shopCraft s) ∧
      (¬Creates s → final (shopCreate cfg quests item) s = s)
  | .buy item amount =>
      Exchanged (stack 1 (cost s item amount)) (stack (toShort item) (toInt amount)) s
        (final (discard (delItem quests 1 (cost s item amount))) s)
        (final (shopBuy cfg quests item amount) s)
  | .sell item amount =>
      Exchanged (stack (toShort item) (toInt amount)) (stack 1 (owed s item amount)) s
        (final (discard (delItem quests (toShort item) (toInt amount))) s)
        (final (shopSell cfg quests item amount) s)

/-- What a request needs to be carried out as a whole. -/
def ShopRequest.Held (cfg : ShopConfig) (quests : Checks) (s : State Shop) : ShopRequest → Prop
  | .create item =>
      Creates s → EachRound cfg quests (toShort item)
        (fun checkitem s => Crafts (toShort item) checkitem s → Crafted cfg quests checkitem s)
        s.store.shopCraft s
  | .buy item amount =>
      Buys cfg s item amount → Traded cfg quests s 1 (cost s item amount) (toShort item) (toInt amount)
  | .sell item amount =>
      Sells cfg s item amount → Traded cfg quests s (toShort item) (toInt amount) 1 (owed s item amount)

section Rounds

variable {cfg : ShopConfig} {quests : Checks} {item : Int} {s : State Shop}

variable (cfg quests item) in
theorem EachRound.congr {p q : ShopCraftItem → State Shop → Prop}
    (h : ∀ checkitem s, p checkitem s ↔ q checkitem s)
    (recipes : List ShopCraftItem) (s : State Shop) :
    EachRound cfg quests item p recipes s ↔ EachRound cfg quests item q recipes s := by
  induction recipes generalizing s with
  | nil => exact Iff.rfl
  | cons checkitem rest ih =>
      unfold EachRound
      simp only [h, ih]

theorem shopCreate_refused (h : ¬Creates s) : final (shopCreate cfg quests item) s = s := by
  unfold Creates at h
  unfold shopCreate
  rw [final_read]
  split
  · rfl
  · split
    · simp_all
    · rfl

theorem shopCreate_creates (h : Creates s) :
    final (shopCreate cfg quests item) s =
      final (craftAll cfg quests (toShort item) s.store.shopCraft) s := by
  obtain ⟨hTrading, hNpc⟩ := h
  unfold shopCreate
  rw [final_read, hTrading, if_neg Bool.false_ne_true, if_pos hNpc]

/-- The recipes that are followed, and the whole price of them, if each of them is
exchanged exactly. -/
theorem craftAll_own {recipes : List ShopCraftItem}
    (h : EachRound cfg quests item (CraftExact cfg quests item) recipes s) :
    ∃ made : List ShopCraftItem, made.Sublist recipes ∧ (∀ recipe ∈ made, recipe.id = item) ∧
      ∀ x, (final (craftAll cfg quests item recipes) s).own x =
        s.own x - (made.map fun recipe => listed x recipe.ingredients).sum +
          (made.map fun recipe => stack (toShort recipe.id) 1 x).sum := by
  induction recipes generalizing s with
  | nil => exact ⟨[], .slnil, by simp, fun x => by simp [craftAll]⟩
  | cons checkitem rest ih =>
      obtain ⟨hHere, hRest⟩ := h
      have hRound := hHere.own
      have hItem : Crafts item checkitem s ∨ craft cfg quests item checkitem s = .ok () s :=
        Classical.or_iff_not_imp_left.mpr craft_of_not
      cases hCraft : craft cfg quests item checkitem s with
      | error e s1 =>
          have hAll : final (craftAll cfg quests item (checkitem :: rest)) s = s1 :=
            final_bind_of_error hCraft
          rw [final_of_error hCraft] at hRound
          rw [hAll]
          obtain rfl | hOwn := hRound
          · exact ⟨[], List.nil_sublist _, by simp, fun x => by simp⟩
          · obtain hCrafts | hSame := hItem
            · exact ⟨[checkitem], by simp, by simp [hCrafts.1], fun x => by simp [hOwn x]⟩
            · cases hCraft.symm.trans hSame
      | ok u s1 =>
          have hAll : final (craftAll cfg quests item (checkitem :: rest)) s =
              final (craftAll cfg quests item rest) s1 := final_bind_of_ok hCraft
          obtain ⟨made, hMade, hIds, hOwnRest⟩ := ih (hRest s1 hCraft)
          rw [final_of_ok hCraft] at hRound
          rw [hAll]
          obtain rfl | hOwn := hRound
          · exact ⟨made, hMade.cons _, hIds, hOwnRest⟩
          · obtain hCrafts | hSame := hItem
            · refine ⟨checkitem :: made, hMade.cons_cons _, by simp_all [hCrafts.1], fun x => ?_⟩
              rw [hOwnRest x, hOwn x, List.map_cons, List.map_cons, List.sum_cons, List.sum_cons]
              omega
            · cases hCraft.symm.trans hSame
              exact ⟨made, hMade.cons _, hIds, hOwnRest⟩

theorem shopCreate_own (h : (ShopRequest.create item).Exact cfg quests s) :
    ∃ made : List ShopCraftItem, made.Sublist s.store.shopCraft ∧
      (∀ recipe ∈ made, recipe.id = toShort item) ∧
        ∀ x, (final (shopCreate cfg quests item) s).own x =
          s.own x - (made.map fun recipe => listed x recipe.ingredients).sum +
            (made.map fun recipe => stack (toShort recipe.id) 1 x).sum := by
  by_cases hCreates : Creates s
  · rw [shopCreate_creates hCreates]
    exact craftAll_own (h.1 hCreates)
  · rw [h.2 hCreates]
    exact ⟨[], List.nil_sublist _, by simp, fun x => by simp⟩

end Rounds

/-- A request is exchanged exactly if and only if the goods that are paid for are
there in full, fit in, and no quest check stops the payment. -/
theorem shopRequest_exact_iff (cfg : ShopConfig) (quests : Checks) (s : State Shop) (request : ShopRequest) :
    request.Exact cfg quests s ↔ request.Held cfg quests s := by
  cases request with
  | create item =>
      have hRounds := EachRound.congr cfg quests (toShort item)
        (craft_exchanged_iff cfg quests (toShort item)) s.store.shopCraft s
      exact (and_iff_left shopCreate_refused).trans (imp_congr_right fun _ => hRounds)
  | buy item amount => exact shopBuy_exchanged_iff cfg quests s item amount
  | sell item amount => exact shopSell_exchanged_iff cfg quests s item amount

def smallShop : ShopConfig := { smallWorld with maxShopBuy := 20 }

/-- A shop where an item is made of two items of a kind and two more of them. -/
def doubleRecipe : Shop where
  shopTrade := []
  shopCraft := [⟨4, [⟨2, 2⟩, ⟨2, 2⟩]⟩]

/-- Three are enough for both entries, and the fourth is not paid. -/
theorem double_ingredient_is_cheaper :
    ¬(ShopRequest.create 4).Exact smallShop idle (beside (holding .shop [.of 2 3]) doubleRecipe) := by
  rintro ⟨hRounds, -⟩
  obtain ⟨hRound, -⟩ := hRounds ⟨rfl, rfl⟩
  obtain hSame | hBoth := hRound
  · exact absurd (congrArg State.checks hSame) (by decide)
  · exact absurd (hBoth 2).1 (by decide)

end Etheos.Stores
