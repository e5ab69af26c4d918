import Etheos.Trade.Refinement

/-! `Trade_Add` and `Trade_Remove` in the book of trades: the offer changes, a
quest check runs, and the flags of both sides are reset. -/
namespace Etheos.Trade

open Characters General

variable {cfg : Config} {b : Book} {c p : CharId} {E : Fault → World → Prop}

/-- The book with another offer, and the flags as they were. -/
def Book.offer (b : Book) (c : CharId) (items : List CharacterItem) : Book :=
  b.modify c ({ · with tradeInventory := items })

def Book.change (b : Book) (c p : CharId) : Book :=
  ((b.modify c ({ · with tradeAgree := false })).modify p
    ({ · with tradeAgree := false })).note (.changed c p)

theorem triple_delTradeItem {After : List CharacterItem → World → Prop} {quests : Quests} {item : Int}
    (hCheck : ∀ items, Triple (HasBook (b.offer c items)) (check cfg quests c)
      (fun _ => After items) E) :
    Triple (HasBook b) (delTradeItem cfg quests c item)
      (fun removed w => if removed then ∃ items, After items w else HasBook b w) E := by
  apply triple_anyCharacter
  intro self
  cases CharacterItem.erase item self.tradeInventory with
  | none => exact .ret fun _ hw => by simpa using hw
  | some items =>
      apply Triple.seq (triple_modify ({ · with tradeInventory := items }) (by intro _; rfl))
      apply Triple.seq (hCheck items)
      exact .ret fun w hw => ⟨items, hw⟩

theorem triple_addTradeItem {After : List CharacterItem → World → Prop} {quests : Quests}
    {item amount : Int}
    (hKept : ∀ items w, HasBook (b.offer c items) w → After items w)
    (hCheck : ∀ items, Triple (HasBook (b.offer c items)) (check cfg quests c)
      (fun _ => After items) E) :
    Triple (HasBook b) (addTradeItem cfg quests c item amount)
      (fun added w => if added then ∃ items, After items w else HasBook b w) E := by
  have hRefused : Triple (HasBook b) (return false : Prog Bool)
      (fun added w => if added then ∃ items, After items w else HasBook b w) E :=
    .ret fun _ hw => by simpa using hw
  apply Triple.branch (fun _ => hRefused)
  intro _
  apply triple_anyCharacter
  intro self
  apply Triple.branch (fun _ => hRefused)
  intro _
  apply Triple.branch (fun _ => hRefused)
  intro _
  apply Triple.branch
  · intro _
    apply Triple.seq (triple_modify ({ · with tradeInventory := _ }) (by intro _; rfl))
    exact .ret fun w hw => ⟨_, hKept _ w hw⟩
  · intro _
    apply Triple.seq (triple_modify ({ · with tradeInventory := _ }) (by intro _; rfl))
    apply Triple.seq (hCheck _)
    exact .ret fun w hw => ⟨_, hw⟩

theorem triple_offerChanged (hPartner : (b.deals c).tradePartner = some p) (hOther : p ≠ c)
    (hGone : (b.deals p).presence.online = false → ∀ w, E .gonePartner w) :
    Triple (HasBook b) (offerChanged c) (fun _ => HasBook (b.change c p)) E := by
  apply triple_tradePartner hPartner _ hGone
  intro _
  apply Triple.seq triple_note
  apply Triple.seq (triple_modify ({ · with tradeAgree := false }) (by intro _; rfl))
  apply triple_tradePartner (p := p)
  · simpa using hPartner
  · intro _
    exact triple_modify ({ · with tradeAgree := false }) (by intro _; rfl)
  · simpa [hOther] using hGone

theorem triple_nullPartner {α : Type} {f : CharId → Prog α} {Q : α → World → Prop}
    (hNone : (b.deals c).tradePartner = none) (h : ∀ w, E .nullPartner w) :
    Triple (HasBook b) (tradePartner c >>= f) Q E := by
  apply Triple.bind (Q := fun _ _ => False)
  · apply Triple.read
    intro w hw
    obtain rfl : book w = b := hw
    have hFirst : (w.characters c).tradePartner = none := hNone
    rw [hFirst]
    exact .raise fun s _ => h s
  · exact fun _ _ hFalse => hFalse.elim

/-- Once its trade is over, a character has no partner to look for. -/
theorem triple_ended {α : Type} {f : CharId → Prog α} {Q : α → World → Prop}
    (h : ∀ w, E .nullPartner w) :
    Triple (fun w => EndedBy b c p w ∨ EndedBy b p c w) (tradePartner c >>= f) Q E := by
  apply Triple.pin
  intro w hw
  rcases hw with hw | hw
  · apply (triple_nullPartner (b := (b.close c p).part c p) (by simp [Book.part]) h).weaken
    rintro s rfl
    exact hw.2
  · apply (triple_nullPartner (b := (b.close p c).part p c) (by simp [Book.part]; grind) h).weaken
    rintro s rfl
    exact hw.2

/-- A handler of which an exception, if it comes from a quest, leaves the book
in a state that moves lead to. -/
def Wild (b : Book) (e : Fault) (w : World) : Prop := e = .runtimeError → Reached b w

theorem Sound.reached_torn (h : Sound b) (hTrading : (b.deals c).trading)
    (hPartner : (b.deals c).tradePartner = some p) {w : World} (hw : Torn b c p w) :
    Reached b w := by
  rcases hw with hw | ⟨_, hw⟩ | ⟨hBusy, hw⟩
  · exact reached_self hw
  · rw [Reached, hw]
    exact h.close_part hTrading hPartner
  · rw [Reached, hw]
    exact h.close_part hBusy (h.partner c p hTrading hPartner).1

theorem Sound.reached_tearing (h : Sound b) (hTrading : (b.deals c).trading)
    (hPartner : (b.deals c).tradePartner = some p) {w : World} (hw : Tearing b c p w) :
    Reached b w := by
  rcases hw with hw | ⟨_, hw⟩ | ⟨hBusy, hw⟩
  · exact h.reached_torn hTrading hPartner hw
  · rw [Reached, hw]
    exact .single (.close hTrading hPartner)
  · rw [Reached, hw]
    exact .single (.close hBusy (h.partner c p hTrading hPartner).1)

/-- What is to be shown of the books that a change of the offer leads to, while the quests
leave the trade alone. -/
structure OfferRule (b : Book) (c p : CharId) (Q : World → Prop) (E : Fault → World → Prop) : Prop where
  same : ∀ w, HasBook b w → Q w
  thrown : ∀ items e w, Thrown (HasBook (b.offer c items)) e w → E e w
  changed : ∀ items w, HasBook ((b.offer c items).change c p) w → Q w
  gone : (b.deals p).presence.online = false → ∀ w, E .gonePartner w

namespace OfferRule

variable {Q : World → Prop} {quests : Quests} (hRule : OfferRule b c p Q E)

include hRule

theorem offerChanged (hPartner : (b.deals c).tradePartner = some p) (hOther : p ≠ c) {x : Prog Bool}
    (hx : Triple (HasBook b) x (fun changed w => if changed then ∃ items,
      HasBook (b.offer c items) w else HasBook b w) E) :
    Triple (HasBook b) (x >>= fun changed => if changed then offerChanged c else return ())
      (fun _ => Q) E := by
  apply hx.bind
  intro changed
  cases changed with
  | false => exact .ret fun w hw => hRule.same w (by simpa using hw)
  | true =>
      apply Triple.pin
      intro w hw
      obtain ⟨items, hItems⟩ : ∃ items, HasBook (b.offer c items) w := by simpa using hw
      apply (triple_offerChanged (b := b.offer c items) (p := p) (by simpa [Book.offer] using hPartner)
        hOther _).conseq (by rintro s rfl; exact hItems) (fun _ => hRule.changed items)
        (fun _ _ => id)
      simpa [Book.offer, hOther] using hRule.gone

theorem check (hStays : quests.All (Stays cfg)) (items : List CharacterItem) :
    Triple (HasBook (b.offer c items)) (check cfg quests c)
      (fun _ => HasBook (b.offer c items)) E :=
  (check_still maxRecursion hStays).conseq (fun _ => id) (fun _ _ => id) (hRule.thrown items)

end OfferRule

theorem offer_change (hTrading : (b.deals c).trading)
    (hPartner : (b.deals c).tradePartner = some p) (items : List CharacterItem) :
    Relation.ReflTransGen Move b ((b.offer c items).change c p) := by
  apply Relation.ReflTransGen.tail (.single (.offer items hTrading))
  exact .change (by simpa [Book.offer] using hTrading) (by simpa [Book.offer] using hPartner)

section

variable (h : Sound b) (hTrading : (b.deals c).trading)
  (hPartner : (b.deals c).tradePartner = some p)

include h hTrading hPartner

theorem changed_wild {x : Prog Bool}
    (hx : Triple (HasBook b) x (fun changed w => if changed then ∃ items,
      Torn (b.offer c items) c p w else HasBook b w) (Wild b)) :
    Triple (HasBook b) (x >>= fun changed => if changed then offerChanged c else return ())
      (fun _ => Reached b) (Wild b) := by
  apply hx.bind
  intro changed
  cases changed with
  | false => exact .ret fun w hw => reached_self (by simpa using hw)
  | true =>
      apply Triple.pin
      intro w hw
      obtain ⟨items, hItems | hEnded⟩ : ∃ items, Torn (b.offer c items) c p w := by simpa using hw
      · apply (triple_offerChanged (b := b.offer c items) (p := p)
          (by simpa [Book.offer] using hPartner) (h.partner_other hPartner) (by simp [Wild])).conseq
          (by rintro s rfl; exact hItems) _ (fun _ _ => id)
        intro _ s hs
        rw [Reached, hs]
        exact offer_change hTrading hPartner items
      · apply (triple_ended (b := b.offer c items) (by simp [Wild])).weaken
        rintro s rfl
        exact hEnded

end

section

variable {quests : Quests} {itemid amount : Int} {Q : World → Prop}

theorem triple_tradeRemove (hSame : ∀ w, HasBook b w → Q w)
    (hChange : (b.deals c).trading → Triple (HasBook b)
      (delTradeItem cfg quests c (toShort itemid) >>= fun removed =>
        if removed then offerChanged c else return ()) (fun _ => Q) E) :
    Triple (HasBook b) (tradeRemove cfg quests c itemid) (fun _ => Q) E := by
  apply triple_getDeal
  intro self hSelf
  have hTrading : self.trading = (b.deals c).trading := congrArg Deal.trading hSelf
  apply Triple.branch (fun _ => .ret hSame)
  intro hBusy
  apply Triple.branch (fun _ => .ret hSame)
  intro _
  exact hChange (by simpa [hTrading] using hBusy)

theorem triple_tradeAdd (hSame : ∀ w, HasBook b w → Q w)
    (hChange : (b.deals c).trading → Triple (HasBook b)
      (addTradeItem cfg quests c (toShort itemid) (toInt amount) >>= fun added =>
        if added then offerChanged c else return ()) (fun _ => Q) E) :
    Triple (HasBook b) (tradeAdd cfg quests c itemid amount) (fun _ => Q) E := by
  apply triple_getDeal
  intro self hSelf
  have hTrading : self.trading = (b.deals c).trading := congrArg Deal.trading hSelf
  apply Triple.branch (fun _ => .ret hSame)
  intro hBusy
  apply Triple.branch (fun _ => .ret hSame)
  intro _
  apply Triple.branch (fun _ => .ret hSame)
  intro _
  exact hChange (by simpa [hTrading] using hBusy)

/-- The check after a change of the offer, whatever the quests do. -/
theorem check_offer_wild (h : Sound b) (hTrading : (b.deals c).trading)
    (hPartner : (b.deals c).tradePartner = some p) (items : List CharacterItem) :
    Triple (HasBook (b.offer c items)) (check cfg quests c)
      (fun _ => Torn (b.offer c items) c p) (Wild b) := by
  have hOffer : Move b (b.offer c items) := .offer items hTrading
  have hTrading' : ((b.offer c items).deals c).trading := by simpa [Book.offer] using hTrading
  have hPartner' : ((b.offer c items).deals c).tradePartner = some p := by
    simpa [Book.offer] using hPartner
  apply (check_busy hTrading' hPartner' (h.partner_other hPartner) maxRecursion quests).conseq
  · exact fun _ hw => .inl hw
  · exact fun _ _ hw => hw
  · intro e w hw hFault
    exact ((hOffer.sound h).reached_tearing hTrading' hPartner' (hw hFault)).head hOffer

theorem remove_wild (h : Sound b) :
    Triple (HasBook b) (tradeRemove cfg quests c itemid) (fun _ => Reached b) (Wild b) := by
  apply triple_tradeRemove fun _ => reached_self
  intro hTrading
  obtain ⟨p, hPartner⟩ := Option.isSome_iff_exists.mp (h.present c hTrading)
  exact changed_wild h hTrading hPartner
    (triple_delTradeItem (check_offer_wild h hTrading hPartner))

theorem add_wild (h : Sound b) :
    Triple (HasBook b) (tradeAdd cfg quests c itemid amount) (fun _ => Reached b) (Wild b) := by
  apply triple_tradeAdd fun _ => reached_self
  intro hTrading
  obtain ⟨p, hPartner⟩ := Option.isSome_iff_exists.mp (h.present c hTrading)
  exact changed_wild h hTrading hPartner
    (triple_addTradeItem (fun _ _ => .inl) (check_offer_wild h hTrading hPartner))

/-- The rules hold of the partner that a trading character has. -/
def OfferRules (b : Book) (c : CharId) (Q : World → Prop) (E : Fault → World → Prop) : Prop :=
  ∀ p, (b.deals c).trading → (b.deals c).tradePartner = some p → OfferRule b c p Q E

theorem remove_still (h : Sound b) (hStays : (b.deals c).trading → quests.All (Stays cfg))
    (hSame : ∀ w, HasBook b w → Q w) (hRules : OfferRules b c Q E) :
    Triple (HasBook b) (tradeRemove cfg quests c itemid) (fun _ => Q) E := by
  apply triple_tradeRemove hSame
  intro hTrading
  obtain ⟨p, hPartner⟩ := Option.isSome_iff_exists.mp (h.present c hTrading)
  have hRule := hRules p hTrading hPartner
  exact hRule.offerChanged hPartner (h.partner_other hPartner)
    (triple_delTradeItem (hRule.check (hStays hTrading)))

theorem add_still (h : Sound b) (hStays : (b.deals c).trading → quests.All (Stays cfg))
    (hSame : ∀ w, HasBook b w → Q w) (hRules : OfferRules b c Q E) :
    Triple (HasBook b) (tradeAdd cfg quests c itemid amount) (fun _ => Q) E := by
  apply triple_tradeAdd hSame
  intro hTrading
  obtain ⟨p, hPartner⟩ := Option.isSome_iff_exists.mp (h.present c hTrading)
  have hRule := hRules p hTrading hPartner
  exact hRule.offerChanged hPartner (h.partner_other hPartner)
    (triple_addTradeItem (fun _ _ => id) (hRule.check (hStays hTrading)))

theorem offerRules_orderly (h : Sound b) : OfferRules b c (Reached b) (Orderly b) :=
  fun p hTrading hPartner => {
    same := fun _ => reached_self
    thrown := fun items _ _ => orderly_thrown (.single (.offer items hTrading))
    changed := by
      intro items w hw
      rw [Reached, hw]
      exact offer_change hTrading hPartner items
    gone := fun hGone _ => .inr ⟨rfl, h.not_attended hTrading hPartner hGone⟩ }

theorem remove_calm (h : Sound b) (hStays : (b.deals c).trading → quests.All (Stays cfg)) :
    Triple (HasBook b) (tradeRemove cfg quests c itemid) (fun _ => Reached b) (Orderly b) :=
  remove_still h hStays (fun _ => reached_self) (offerRules_orderly h)

theorem add_calm (h : Sound b) (hStays : (b.deals c).trading → quests.All (Stays cfg)) :
    Triple (HasBook b) (tradeAdd cfg quests c itemid amount) (fun _ => Reached b) (Orderly b) :=
  add_still h hStays (fun _ => reached_self) (offerRules_orderly h)

end

end Etheos.Trade
