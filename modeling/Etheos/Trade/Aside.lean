import Etheos.Character.Rules
import Etheos.Trade.Handlers

/-! Assertions that look at nothing but what is carried, and the handlers of the trade packets. -/
namespace Etheos.Characters.Aside

open General Trade

variable {cfg : Config} {P : World → Prop} (h : Aside cfg P) {c : CharId}

include h

theorem offerChanged : Keeps P (offerChanged c) := by
  apply tradePartner.bind
  intro p
  apply (h.note _ (by simp)).bind
  intro _
  apply (h.change _ _ (by intro _; rfl)).bind
  intro _
  exact tradePartner.bind fun _ => h.change _ _ (by intro _; rfl)

theorem tradeRemove (quests : Quests) (itemid : Int) : Keeps P (tradeRemove cfg quests c itemid) := by
  apply getCharacter
  intro self
  apply Keeps.branch .ret
  apply Keeps.branch .ret
  apply Keeps.bind
  · apply getCharacter
    intro self
    split
    · exact .ret
    · exact (h.change _ _ (by intro _; rfl)).bind fun _ => (h.questCheck _ _).bind fun _ => .ret
  · exact fun _ => .branch h.offerChanged .ret

theorem tradeAdd (quests : Quests) (itemid amount : Int) : Keeps P (tradeAdd cfg quests c itemid amount) := by
  apply getCharacter
  intro self
  apply Keeps.branch .ret
  apply Keeps.branch .ret
  apply Keeps.branch .ret
  apply Keeps.bind
  · apply Keeps.branch .ret
    apply getCharacter
    intro self
    apply Keeps.branch .ret
    apply Keeps.branch .ret
    apply Keeps.branch
    · exact (h.change _ _ (by intro _; rfl)).bind fun _ => .ret
    · exact (h.change _ _ (by intro _; rfl)).bind fun _ => (h.questCheck _ _).bind fun _ => .ret
  · exact fun _ => .branch h.offerChanged .ret

theorem swapOffer {owner : CharId} {giver taker : Prog CharId} (hGiver : Keeps P giver) (hTaker : Keeps P taker)
    (quests : Quests) (items : List CharacterItem) : Keeps P (swapOffer cfg owner giver taker quests items) := by
  induction items generalizing quests with
  | nil => exact .ret
  | cons item items ih =>
      apply hGiver.bind
      intro x
      apply ((h.delItem h.questCheck _ _ item.isInt).bind fun _ => .ret).bind
      intro _
      apply hTaker.bind
      intro y
      apply ((h.addItem h.questCheck _ _ item.isInt).bind fun _ => .ret).bind
      intro _
      apply getCharacter
      exact fun _ => .branch .raise (ih _)

theorem swapEnd (quests : Quests) : Keeps P (swapEnd cfg quests c) := by
  apply tradePartner.bind
  intro p
  apply (h.change _ _ (by intro _; rfl)).bind
  intro _
  apply (h.note _ (by simp)).bind
  intro _
  apply (h.questCheck _ _).bind
  intro _
  apply tradePartner.bind
  intro _
  apply (h.questCheck _ _).bind
  intro _
  apply tradePartner.bind
  intro _
  apply (h.change _ _ (by intro _; rfl)).bind
  intro _
  apply (h.change _ _ (by intro _; rfl)).bind
  intro _
  apply tradePartner.bind
  intro _
  exact (h.change _ _ (by intro _; rfl)).bind fun _ => h.change _ _ (by intro _; rfl)

/-- Behind the note, the swap is like any other changes. -/
theorem swapOffers (quests : Quests) (p : CharId) : Keeps P (do
    let partner ← Characters.getCharacter p
    Trade.swapOffer cfg p (Characters.tradePartner c) (return c) (quests.sub 0) partner.tradeInventory
    let self ← Characters.getCharacter c
    Trade.swapOffer cfg c (return c) (Characters.tradePartner c) (quests.sub 1) self.tradeInventory
    Trade.swapEnd cfg quests c) := by
  apply getCharacter
  intro partner
  apply (h.swapOffer tradePartner .ret _ _).bind
  intro _
  apply getCharacter
  intro self
  exact (h.swapOffer .ret tradePartner _ _).bind fun _ => h.swapEnd quests

theorem tradeAgree (hSwapped : ∀ c p, Keeps P (Characters.note (.swapped c p))) (quests : Quests) (agree : UInt8) :
    Keeps P (tradeAgree cfg quests c agree) := by
  apply Keeps.read
  intro w
  apply Keeps.branch .ret
  apply (h.change _ _ (by intro _; rfl)).bind
  intro _
  apply (h.note _ (by simp)).bind
  intro _
  apply Keeps.branch
  · apply Keeps.branch .ret
    apply tradePartner.bind
    intro p
    apply getCharacter
    intro partner
    apply Keeps.branch _ .ret
    apply tradePartner.bind
    intro p
    exact (hSwapped c p).bind fun _ => h.swapOffers quests p
  · exact tradePartner.bind fun _ => .ret

end Etheos.Characters.Aside
