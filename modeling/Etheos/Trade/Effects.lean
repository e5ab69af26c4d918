import Etheos.Trade.Book
import Etheos.Trade.Handlers
import Etheos.Character.Items
import Etheos.Character.Rules

/-! What the functions of a character do to the book of trades: nothing at
all, or the end of the trade of that character. -/
namespace Etheos.Trade

open Characters CharacterItem General

def deal (self : Character) : Deal :=
  ⟨self.presence, self.trading, self.tradePartner, self.tradeAgree, self.tradeInventory⟩

/-- The book that the world keeps in its characters. -/
def book (w : World) : Book := ⟨fun c => deal (w.characters c), w.log⟩

def HasBook (b : Book) (w : World) : Prop := book w = b

theorem book_modifyCharacter {w : World} {c : CharId} {f : Character → Character} (g : Deal → Deal)
    (h : ∀ self, deal (f self) = g (deal self)) :
    book (w.modifyCharacter c f) = (book w).modify c g := by
  unfold book Book.modify
  congr 1
  funext x
  by_cases hx : x = c
  · simp [hx, h]
  · simp [hx]

/-- A change that the trades do not notice. -/
theorem book_other {w : World} {c : CharId} {f : Character → Character}
    (h : ∀ self, deal (f self) = deal self) : book (w.modifyCharacter c f) = book w :=
  (book_modifyCharacter id h).trans (by simp [Book.modify])

section

variable {cfg : Config} {b : Book} {c p : CharId} {E : Fault → World → Prop}

theorem triple_modify (g : Deal → Deal) {f : Character → Character}
    (h : ∀ self, deal (f self) = g (deal self)) :
    Triple (HasBook b) (modifyCharacter c f) (fun _ => HasBook (b.modify c g)) E :=
  triple_modifyCharacter fun _ hw => (book_modifyCharacter g h).trans (hw ▸ rfl)

theorem triple_other {f : Character → Character} (h : ∀ self, deal (f self) = deal self) :
    Triple (HasBook b) (modifyCharacter c f) (fun _ => HasBook b) E :=
  triple_modifyCharacter fun _ hw => (book_other h).trans hw

theorem triple_note {n : Note} : Triple (HasBook b) (note n) (fun _ => HasBook (b.note n)) E :=
  Triple.modify fun _ hw => hw ▸ rfl

theorem triple_getDeal {α : Type} {f : Character → Prog α} {Q : α → World → Prop}
    (h : ∀ self, deal self = b.deals c → Triple (HasBook b) (f self) Q E) :
    Triple (HasBook b) (getCharacter c >>= f) Q E := by
  apply triple_getCharacter
  intro w hw
  have hSelf : deal (w.characters c) = b.deals c := hw ▸ rfl
  exact (h _ hSelf).weaken fun s hs => hs ▸ hw

/-- The pointer to the partner is followed. The partner may be deleted. -/
theorem triple_followPartner {α : Type} {f : CharId → Prog α} {Q : α → World → Prop}
    (hPartner : (b.deals c).tradePartner = some p)
    (h : (b.deals p).presence.online → Triple (HasBook b) (f p) Q E)
    (hGone : (b.deals p).presence.online = false → ∀ w, HasBook b w → E .gonePartner w) :
    Triple (HasBook b) (tradePartner c >>= f) Q E := by
  apply Triple.bind (Q := fun a w => a = p ∧ (b.deals p).presence.online ∧ HasBook b w)
  · apply Triple.read
    intro w hw
    obtain rfl : book w = b := hw
    have hFirst : (w.characters c).tradePartner = some p := hPartner
    rw [hFirst]
    apply Triple.branch
    · intro hOnline
      exact .ret fun s hs => ⟨rfl, hOnline, hs ▸ rfl⟩
    · intro hOffline
      exact .raise fun s hs => hGone (Bool.eq_false_iff.mpr hOffline) s (hs ▸ rfl)
  · intro a w hw
    obtain ⟨rfl, hOnline, hBook⟩ := hw
    exact h hOnline w hBook

theorem triple_tradePartner {α : Type} {f : CharId → Prog α} {Q : α → World → Prop}
    (hPartner : (b.deals c).tradePartner = some p)
    (h : (b.deals p).presence.online → Triple (HasBook b) (f p) Q E)
    (hGone : (b.deals p).presence.online = false → ∀ w, E .gonePartner w) :
    Triple (HasBook b) (tradePartner c >>= f) Q E :=
  triple_followPartner hPartner h fun hOffline w _ => hGone hOffline w

end

section

variable {cfg : Config} {b : Book} {c p : CharId}

/-- The only exception is the one that a quest throws. -/
def Thrown (P : World → Prop) (e : Fault) (w : World) : Prop := e = .runtimeError ∧ P w

theorem leaveTrade_free {E : Fault → World → Prop} {depth : Nat} {quests : Quests}
    (hFree : (b.deals c).trading = false) :
    Triple (HasBook b) (leaveTrade (checkQuestRules cfg depth) quests c) (fun _ => HasBook b) E := by
  apply triple_getDeal
  intro self hSelf
  have hSelf' : self.trading = false := (congrArg Deal.trading hSelf).trans hFree
  simp only [hSelf']
  exact .ret fun _ hw => hw

/-- The checks of a character that is in no trade leave all trades alone. -/
theorem check_free (hFree : (b.deals c).trading = false) (depth : Nat) (quests : Quests) :
    Triple (HasBook b) (checkQuestRules cfg depth quests c) (fun _ => HasBook b)
      (Thrown (HasBook b)) := by
  apply triple_checkQuestRules (fun _ => True) (fun _ hw => ⟨rfl, hw⟩) _ depth quests
    fun _ _ _ => trivial
  intro depth hCheck
  exact {
    throws := fun _ hw => ⟨rfl, hw⟩
    gives := fun _ _ _ _ hw _ _ _ _ => (book_other (by intro _; rfl)).trans hw
    removes := fun _ _ _ _ hw _ _ _ => (book_other (by intro _; rfl)).trans hw
    checks := hCheck
    warps := by
      intro quests map _ _
      apply Triple.branch
      · intro _
        apply Triple.seq (triple_other (by intro _; rfl))
        apply Triple.seq (leaveTrade_free hFree)
        exact (triple_other (by intro _; rfl)).seq (hCheck _ fun _ _ _ => trivial)
      · intro _
        exact .ret fun _ hw => hw }

theorem Book.close_deals (b : Book) (hOther : p ≠ c) (x : CharId) :
    (b.close c p).deals x =
      if x = c then { b.deals c with trading := false, tradeInventory := [], tradeAgree := false }
      else if x = p then { b.deals p with trading := false, tradeInventory := [] }
      else b.deals x := by
  simp only [Book.close, Book.note_deals, Book.modify_deals]
  grind

/-- The end of a trade, with the two quest checks in it. It does not start when the
partner is deleted. -/
theorem triple_closing {E : Fault → World → Prop} {depth : Nat} {quests : Quests}
    (hPartner : (b.deals c).tradePartner = some p) (hOther : p ≠ c)
    (hSelf : Triple (HasBook (b.close c p)) (checkQuestRules cfg depth (quests.sub 0) c)
      (fun _ => HasBook (b.close c p)) E)
    (hOtherSelf : Triple (HasBook (b.close c p)) (checkQuestRules cfg depth (quests.sub 1) p)
      (fun _ => HasBook (b.close c p)) E)
    (hGone : (b.deals p).presence.online = false → ∀ w, E .gonePartner w) :
    Triple (HasBook b) (closeTrade (checkQuestRules cfg depth) quests c)
      (fun _ => HasBook ((b.close c p).part c p)) E := by
  have hPartner' : ((b.close c p).deals c).tradePartner = some p := by
    simp [Book.close_deals b hOther, hPartner]
  apply triple_tradePartner hPartner _ hGone
  intro hOnline
  have hGone' : ((b.close c p).deals p).presence.online = false → ∀ w, E .gonePartner w := by
    simp [Book.close_deals b hOther, hOther, hOnline]
  apply Triple.seq (triple_modify
    ({ · with trading := false, tradeInventory := [], tradeAgree := false }) (by intro _; rfl))
  apply Triple.seq (triple_modify ({ · with trading := false, tradeInventory := [] })
    (by intro _; rfl))
  apply Triple.seq (triple_modify ({ · with tradeAgree := false }) (by intro _; rfl))
  apply Triple.seq triple_note
  change Triple (HasBook (b.close c p)) _ _ _
  apply Triple.seq hSelf
  apply triple_tradePartner hPartner' _ hGone'
  intro _
  apply Triple.seq hOtherSelf
  apply triple_tradePartner hPartner' _ hGone'
  intro _
  apply Triple.seq (triple_modify ({ · with tradePartner := none }) (by intro _; rfl))
  exact triple_modify ({ · with tradePartner := none }) (by intro _; rfl)

/-- Both sides are out of the trade while their quests are checked. -/
theorem close_free (b : Book) (hOther : p ≠ c) :
    ((b.close c p).deals c).trading = false ∧ ((b.close c p).deals p).trading = false := by
  simp [Book.close_deals b hOther, hOther]

/-- The end stops half way when a quest check of one of the two sides throws. -/
theorem triple_closeTrade {E : Fault → World → Prop} {depth : Nat} {quests : Quests}
    (hPartner : (b.deals c).tradePartner = some p) (hOther : p ≠ c)
    (hThrown : ∀ w, HasBook (b.close c p) w → E .runtimeError w)
    (hGone : (b.deals p).presence.online = false → ∀ w, E .gonePartner w) :
    Triple (HasBook b) (closeTrade (checkQuestRules cfg depth) quests c)
      (fun _ => HasBook ((b.close c p).part c p)) E := by
  have hError : ∀ e w, Thrown (HasBook (b.close c p)) e w → E e w := by
    intro e w ⟨hFault, hw⟩
    exact hFault ▸ hThrown w hw
  obtain ⟨hFree, hFree'⟩ := close_free b hOther
  apply triple_closing hPartner hOther _ _ hGone
  · exact (check_free hFree depth _).conseq (fun _ => id) (fun _ _ => id) hError
  · exact (check_free hFree' depth _).conseq (fun _ => id) (fun _ _ => id) hError

theorem triple_leaveTrade {E : Fault → World → Prop} {depth : Nat} {quests : Quests}
    (hTrading : (b.deals c).trading) (hPartner : (b.deals c).tradePartner = some p)
    (hOther : p ≠ c) (hThrown : ∀ w, HasBook (b.close c p) w → E .runtimeError w)
    (hGone : (b.deals p).presence.online = false → ∀ w, E .gonePartner w) :
    Triple (HasBook b) (leaveTrade (checkQuestRules cfg depth) quests c)
      (fun _ => HasBook ((b.close c p).part c p)) E := by
  apply triple_getDeal
  intro self hSelf
  have hSelf' : self.trading = true := (congrArg Deal.trading hSelf).trans hTrading
  simp only [hSelf']
  exact triple_closeTrade hPartner hOther hThrown hGone

theorem warp_free (hFree : (b.deals c).trading = false) (depth : Nat) (quests : Quests) (map : Int) :
    Triple (HasBook b) (warp cfg (checkQuestRules cfg depth) quests c map) (fun _ => HasBook b)
      (Thrown (HasBook b)) := by
  apply Triple.branch
  · intro _
    apply Triple.seq (triple_other (by intro _; rfl))
    apply Triple.seq (leaveTrade_free hFree)
    exact (triple_other (by intro _; rfl)).seq (check_free hFree depth _)
  · intro _
    exact .ret fun _ hw => hw

theorem part_free (b : Book) (hOther : p ≠ c) :
    (((b.close c p).part c p).deals c).trading = false := by
  simp [Book.part, Book.close_deals b hOther, hOther.symm]

theorem part_free_partner (b : Book) (hOther : p ≠ c) :
    (((b.close p c).part p c).deals c).trading = false := by
  simp [Book.part, Book.close_deals b hOther.symm, hOther.symm]

/-- A warp takes a trading character out of its trade. -/
theorem warp_busy {E : Fault → World → Prop} {depth : Nat} {quests : Quests} {map : Int}
    (hTrading : (b.deals c).trading) (hPartner : (b.deals c).tradePartner = some p)
    (hOther : p ≠ c)
    (hThrown : ∀ w, HasBook (b.close c p) w ∨ HasBook ((b.close c p).part c p) w →
      E .runtimeError w)
    (hGone : (b.deals p).presence.online = false → ∀ w, E .gonePartner w) :
    Triple (HasBook b) (warp cfg (checkQuestRules cfg depth) quests c map)
      (fun _ => HasBook (if cfg.mapExists map then (b.close c p).part c p else b)) E := by
  apply Triple.branch
  · intro hMap
    simp only [hMap]
    apply Triple.seq (triple_other (by intro _; rfl))
    apply Triple.seq (triple_leaveTrade hTrading hPartner hOther (fun w hw => hThrown w (.inl hw))
      hGone)
    apply Triple.seq (triple_other (by intro _; rfl))
    apply (check_free (part_free b hOther) depth _).conseq (fun _ => id) (fun _ _ => id)
    intro e w ⟨hFault, hw⟩
    exact hFault ▸ hThrown w (.inr hw)
  · intro hMap
    simp only [hMap]
    exact .ret fun _ hw => hw

/-- The trade is over because of one side. -/
def EndedBy (b : Book) (c p : CharId) (w : World) : Prop :=
  (b.deals c).trading ∧ HasBook ((b.close c p).part c p) w

/-- Either nothing has happened to the trade, or it is over. -/
def Torn (b : Book) (c p : CharId) (w : World) : Prop :=
  HasBook b w ∨ EndedBy b c p w ∨ EndedBy b p c w

/-- The trade has stopped on its way to the end. -/
def StoppedBy (b : Book) (c p : CharId) (w : World) : Prop :=
  (b.deals c).trading ∧ HasBook (b.close c p) w

def Tearing (b : Book) (c p : CharId) (w : World) : Prop :=
  Torn b c p w ∨ StoppedBy b c p w ∨ StoppedBy b p c w

theorem Torn.symm {w : World} (h : Torn b c p w) : Torn b p c w := h.imp id Or.symm

theorem Tearing.symm {w : World} (h : Tearing b c p w) : Tearing b p c w := h.imp Torn.symm Or.symm

/-- What is thrown while the trade is torn. -/
def ThrownTorn (b : Book) (c p : CharId) (e : Fault) (w : World) : Prop :=
  e = .runtimeError → Tearing b c p w

theorem Torn.other {w : World} {x : CharId} {f : Character → Character}
    (h : ∀ self, deal (f self) = deal self) (hw : Torn b c p w) :
    Torn b c p (w.modifyCharacter x f) :=
  hw.imp (book_other h).trans (Or.imp (And.imp_right (book_other h).trans)
    (And.imp_right (book_other h).trans))

theorem warp_torn (hTrading : (b.deals c).trading)
    (hPartner : (b.deals c).tradePartner = some p) (hOther : p ≠ c) (depth : Nat)
    (quests : Quests) (map : Int) :
    Triple (Torn b c p) (warp cfg (checkQuestRules cfg depth) quests c map)
      (fun _ => Torn b c p) (ThrownTorn b c p) := by
  have hFree : ∀ b' : Book, (b'.deals c).trading = false →
      (∀ w, HasBook b' w → EndedBy b c p w ∨ EndedBy b p c w) →
      Triple (HasBook b') (warp cfg (checkQuestRules cfg depth) quests c map)
        (fun _ => Torn b c p) (ThrownTorn b c p) := by
    intro b' hFree hEnded
    apply (warp_free hFree depth quests map).conseq (fun _ => id)
    · exact fun _ w hw => .inr (hEnded w hw)
    · exact fun _ w hw _ => .inl (.inr (hEnded w hw.2))
  apply Triple.pin
  intro w hw
  rcases hw with hw | hw | hw
  · have hThrown : ∀ w, HasBook (b.close c p) w ∨ HasBook ((b.close c p).part c p) w →
        ThrownTorn b c p .runtimeError w := by
      intro w hw _
      rcases hw with hw | hw
      · exact .inr (.inl ⟨hTrading, hw⟩)
      · exact .inl (.inr (.inl ⟨hTrading, hw⟩))
    apply Triple.conseq _ (warp_busy hTrading hPartner hOther hThrown (by simp [ThrownTorn])) _
      (fun _ _ => id)
    · rintro s rfl
      exact hw
    intro _ w hw
    split at hw
    · exact .inr (.inl ⟨hTrading, hw⟩)
    · exact .inl hw
  · apply (hFree _ (part_free b hOther) fun _ h => .inl ⟨hTrading, h⟩).weaken
    rintro s rfl
    exact hw.2
  · apply (hFree _ (part_free_partner b hOther) fun _ h => .inr ⟨hw.1, h⟩).weaken
    rintro s rfl
    exact hw.2

/-- A quest check of a trading character can only end its trade. -/
theorem check_busy (hTrading : (b.deals c).trading)
    (hPartner : (b.deals c).tradePartner = some p) (hOther : p ≠ c) (depth : Nat)
    (quests : Quests) :
    Triple (Torn b c p) (checkQuestRules cfg depth quests c) (fun _ => Torn b c p)
      (ThrownTorn b c p) := by
  apply triple_checkQuestRules (fun _ => True) (fun _ hw _ => .inl hw) _ depth quests
    fun _ _ _ => trivial
  intro depth hCheck
  exact {
    throws := fun _ hw _ => .inl hw
    gives := fun _ _ _ _ hw _ _ _ _ => hw.other (by intro _; rfl)
    removes := fun _ _ _ _ hw _ _ _ => hw.other (by intro _; rfl)
    checks := hCheck
    warps := fun quests map _ _ => warp_torn hTrading hPartner hOther depth quests map }

/-- A quest action that does not move the character. -/
def Stays (cfg : Config) (action : QuestAction) : Prop :=
  ∀ map, action = .warp map → cfg.mapExists map = false

/-- Without a warp, the checks leave all trades alone. -/
theorem check_still (depth : Nat) {quests : Quests} (hStays : quests.All (Stays cfg)) :
    Triple (HasBook b) (checkQuestRules cfg depth quests c) (fun _ => HasBook b)
      (Thrown (HasBook b)) := by
  apply triple_checkQuestRules (Stays cfg) (fun _ hw => ⟨rfl, hw⟩) _ depth quests hStays
  intro depth hCheck
  exact {
    throws := fun _ hw => ⟨rfl, hw⟩
    gives := fun _ _ _ _ hw _ _ _ _ => (book_other (by intro _; rfl)).trans hw
    removes := fun _ _ _ _ hw _ _ _ => (book_other (by intro _; rfl)).trans hw
    checks := hCheck
    warps := by
      intro quests map hStays _
      unfold warp
      rw [hStays map rfl]
      exact .ret fun _ hw => hw }

/-- An assertion that does not depend on where the character is, nor on what it
carries, as long as no stack goes below zero. -/
def Indifferent (cfg : Config) (c : CharId) (P : World → Prop) : Prop :=
  ∀ w f, (∀ self, deal (f self) = deal self) →
    (Stocked cfg.maxItem (w.characters c).inventory →
      Stocked cfg.maxItem (f (w.characters c)).inventory) → P w → P (w.modifyCharacter c f)

section

variable {P : World → Prop} {E : Fault → World → Prop}

theorem Indifferent.modify (h : Indifferent cfg c P) {f : Character → Character}
    (hDeal : ∀ self, deal (f self) = deal self)
    (hInventory : ∀ self, (f self).inventory = self.inventory) :
    Triple P (modifyCharacter c f) (fun _ => P) E := by
  apply triple_modifyCharacter
  intro w hw
  exact h w f hDeal (by simp only [hInventory, imp_self]) hw

theorem Indifferent.add (h : Indifferent cfg c P) {item amount : Int} (hInt : IsInt amount)
    {w : World} {inventory : List CharacterItem} (hw : P w) (hPos : 0 < amount)
    (hAdd : CharacterItem.add cfg.maxItem item amount (w.characters c).inventory = some inventory) :
    P (w.modifyCharacter c ({ · with inventory := inventory })) :=
  h w _ (by intro _; rfl) (CharacterItem.add_stocked cfg.maxItem_isInt hInt hPos hAdd) hw

theorem Indifferent.del (h : Indifferent cfg c P) {item amount : Int} {w : World}
    {inventory : List CharacterItem} (hw : P w) (hPos : 0 < amount)
    (hDel : CharacterItem.del item amount (w.characters c).inventory = some inventory) :
    P (w.modifyCharacter c ({ · with inventory := inventory })) :=
  h w _ (by intro _; rfl) (CharacterItem.del_stocked hPos hDel) hw

variable (h : Indifferent cfg c P)
  (hCheck : ∀ quests, Triple P (check cfg quests c) (fun _ => P) E)

include h hCheck

theorem Indifferent.addItem (quests : Quests) (item : Int) {amount : Int} (hInt : IsInt amount) :
    Triple P (addItem cfg (check cfg) quests c item amount) (fun _ => P) E :=
  triple_addItem (fun _ _ hw hPos _ => h.add hInt hw hPos) (hCheck quests)

theorem Indifferent.delItem (quests : Quests) (item amount : Int) :
    Triple P (delItem (check cfg) quests c item amount) (fun _ => P) E :=
  triple_delItem (fun _ _ hw => h.del hw) (hCheck quests)

theorem Indifferent.unequip (quests : Quests) (item : Int) (subloc : Nat) :
    Triple P (unequip cfg quests c item subloc) (fun _ => P) E := by
  apply Triple.branch
  · intro _
    exact .ret fun _ hw => hw
  intro _
  apply triple_anyCharacter
  intro self
  dsimp only
  split
  case h_1 => exact .ret fun _ hw => hw
  case h_2 slot _ =>
      apply Triple.seq (h.modify (by intro _; rfl) (by intro _; rfl))
      apply Triple.seq (triple_discard (h.addItem hCheck _ item (by decide)))
      exact (hCheck _).seq (.ret fun _ hw => hw)

theorem Indifferent.dropPaperdoll (quests : Quests) (slots : List Nat) :
    Triple P (dropPaperdoll cfg c quests slots) (fun _ => P) E := by
  induction slots generalizing quests with
  | nil => exact .ret fun _ hw => hw
  | cons slot slots ih =>
      apply triple_anyCharacter
      intro self
      apply Triple.branch
      · intro _
        exact ih quests
      · intro _
        apply Triple.seq (triple_discard (h.unequip hCheck _ _ _))
        apply Triple.seq (triple_discard (h.delItem hCheck _ _ _))
        exact ih _

theorem Indifferent.dropAll (quests : Quests) :
    Triple P (dropAll cfg quests c) (fun _ => P) E := by
  apply triple_getCharacter
  intro w hw
  apply Triple.branch
  · intro _
    exact .ret fun _ hSame => hSame ▸ hw
  · intro _
    apply Triple.cut P
    · apply triple_modifyCharacter
      rintro s rfl
      apply h s _ (by intro _; rfl) _ hw
      exact fun hStock hMax item hItem => hStock hMax item (List.mem_filter.mp hItem).1
    · exact (hCheck _).seq (h.dropPaperdoll hCheck _ _)

theorem Indifferent.deathRespawn (quests : Quests) :
    Triple P (deathRespawn cfg quests c) (fun _ => P) E := by
  apply Triple.cut P
  · apply Triple.branch
    · intro _
      exact h.dropAll hCheck quests
    · intro _
      exact .ret fun _ hw => hw
  · exact h.modify (by intro _; rfl) (by intro _; rfl)

end

theorem indifferent_hasBook (b : Book) : Indifferent cfg c (HasBook b) :=
  fun _ _ h _ hw => (book_other h).trans hw

theorem deathRespawn_free (hFree : (b.deals c).trading = false) (quests : Quests) :
    Triple (HasBook b) (deathRespawn cfg quests c) (fun _ => HasBook b) (Thrown (HasBook b)) :=
  (indifferent_hasBook b).deathRespawn (check_free hFree _) quests

end

end Etheos.Trade
