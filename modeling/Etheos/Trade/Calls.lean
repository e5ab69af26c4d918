import Etheos.Character.Inventory
import Etheos.Trade.Aside

/-! The functions of a character and the swap of a trade, with all quest checks in their course,
change what is carried by a run of calls. -/
namespace Etheos.Inventories

open Characters CharacterItem General

variable {files : Files} {bags : Bags}

/-- Calls lead to what the characters of the world carry. -/
def Reaches (files : Files) (bags : Bags) (w : World) : Prop :=
  ∃ calls bags', run (step files) bags calls = some bags' ∧
    ∀ c, (bags' c).inventory = (w.characters c).inventory

theorem run_append (calls more : List Call) :
    run (step files) bags (calls ++ more) = (run (step files) bags calls).bind (run (step files) · more) := by
  induction calls generalizing bags with
  | nil => rfl
  | cons call calls ih => exact ih

/-- One more call. -/
theorem Reaches.call {w : World} (h : Reaches files bags w) (call : Call) {inventory : List CharacterItem}
    (hCall : ∀ bag : Bag, bag.inventory = (w.characters call.character).inventory →
      (call.change files bag).inventory = inventory) :
    Reaches files bags (w.modifyCharacter call.character ({ · with inventory := inventory })) := by
  obtain ⟨calls, bags', hRun, hSame⟩ := h
  refine ⟨calls ++ [call], Function.update bags' call.character (call.change files (bags' call.character)), ?_,
    fun c => ?_⟩
  · rw [run_append, hRun]
    rfl
  · rcases eq_or_ne c call.character with rfl | hOther
    · rw [Function.update_self, World.modifyCharacter_self]
      exact hCall _ (hSame _)
    · rw [Function.update_of_ne hOther, World.modifyCharacter_other _ _ hOther]
      exact hSame c

theorem aside_reaches (files : Files) (bags : Bags) : Aside files.toConfig (Reaches files bags) where
  change c f hSame := by
    apply Keeps.modify
    rintro w ⟨calls, bags', hRun, hBags⟩
    refine ⟨calls, bags', hRun, fun x => (hBags x).trans ?_⟩
    rcases eq_or_ne x c with rfl | hOther
    · rw [World.modifyCharacter_self, hSame]
    · rw [World.modifyCharacter_other _ _ hOther]
  note n _ := Keeps.modify fun _ hw => hw
  add w c item amount inventory hw hInt hPos hId hAdd := by
    refine hw.call (.addItem c ⟨item, amount, hInt⟩) fun bag hBag => ?_
    have hSame : bag.inventory = (w.characters c).inventory := hBag
    change (bag.addItem files item amount).inventory = inventory
    rw [Bag.addItem, if_neg (by omega), if_neg (by omega), hSame, hAdd, Option.getD_some]
  del w c item amount inventory hw hInt hPos hDel := by
    refine hw.call (.delItem c ⟨item, amount, hInt⟩) fun bag hBag => ?_
    have hSame : bag.inventory = (w.characters c).inventory := hBag
    change (bag.delItem item amount).inventory = inventory
    rw [Bag.delItem, if_neg (by omega), hSame, hDel, Option.getD_some]

theorem addItem_reaches (quests : Quests) (c : CharId) (item : CharacterItem) :
    Keeps (Reaches files bags) (addItem files.toConfig (check files.toConfig) quests c item.id item.amount) :=
  (aside_reaches files bags).addItem (aside_reaches files bags).questCheck quests item.id item.isInt

theorem delItem_reaches (quests : Quests) (c : CharId) (item : CharacterItem) :
    Keeps (Reaches files bags) (delItem (check files.toConfig) quests c item.id item.amount) :=
  (aside_reaches files bags).delItem (aside_reaches files bags).questCheck quests item.id item.isInt

theorem unequip_reaches (quests : Quests) (c : CharId) (item : Int) (subloc : Nat) :
    Keeps (Reaches files bags) (Characters.unequip files.toConfig quests c item subloc) :=
  (aside_reaches files bags).unequip quests item subloc

/-- The swap and all that quests do in between. -/
theorem tradeAgree_reaches (quests : Quests) (c : CharId) (agree : UInt8) :
    Keeps (Reaches files bags) (Trade.tradeAgree files.toConfig quests c agree) :=
  (aside_reaches files bags).tradeAgree (fun _ _ => Keeps.modify fun _ hw => hw) quests agree

end Etheos.Inventories
