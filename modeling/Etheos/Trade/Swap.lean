import Etheos.Trade.Offers

/-! `Trade_Agree` in the book of trades. The swap runs quest checks at every item,
and two more between the moments at which the two sides leave the trade. -/
namespace Etheos.Trade

open Characters General

section

variable {cfg : Config} {P R : World → Prop} {E : Fault → World → Prop} {owner : CharId}
  {giver taker : Prog CharId} (side : CharId → Prop) (allowed : QuestAction → Prop)

/-- One loop of the swap. What the checks keep, `P`, gives back what held at the
start, `R`, as long as the offer is not cleared. -/
theorem triple_swapOffer (hR : ∀ w, R w → P w)
    (hGiver : Triple P giver (fun x w => side x ∧ P w) E)
    (hTaker : Triple P taker (fun x w => side x ∧ P w) E)
    (hCheck : ∀ x, side x → ∀ quests : Quests, quests.All allowed →
      Triple P (check cfg quests x) (fun _ => P) E)
    (hInventory : ∀ x, side x → Indifferent cfg x P) {items : List CharacterItem} {quests : Quests}
    (hQuests : quests.All allowed)
    (hDangling : items ≠ [] → ∀ w, P w → (w.characters owner).tradeInventory = [] →
      E .danglingIterator w)
    (hNext : ∀ w, P w → (w.characters owner).tradeInventory ≠ [] → R w) :
    Triple R (swapOffer cfg owner giver taker quests items) (fun _ => R) E := by
  induction items generalizing quests with
  | nil => exact .ret fun _ hw => hw
  | cons item items ih =>
      apply Triple.weaken hR
      apply hGiver.bind
      intro x
      apply Triple.cut P
      · apply Triple.pin
        rintro w ⟨hx, hw⟩
        apply Triple.weaken (P := P) (by rintro s rfl; exact hw)
        apply triple_discard
        exact triple_delItem (fun _ _ hw => (hInventory x hx).del hw) (hCheck x hx _ (hQuests.sub 0))
      apply hTaker.bind
      intro y
      apply Triple.cut P
      · apply Triple.pin
        rintro w ⟨hy, hw⟩
        apply Triple.weaken (P := P) (by rintro s rfl; exact hw)
        apply triple_discard
        exact triple_addItem (fun _ _ hw hPos _ => (hInventory y hy).add item.isInt hw hPos)
          (hCheck y hy _ (hQuests.sub 1))
      apply triple_getCharacter
      intro w hw
      apply Triple.branch
      · intro hCleared
        apply Triple.raise
        rintro s rfl
        exact hDangling (by simp) s hw hCleared
      · intro hKept
        apply (ih (hQuests.sub 2) (fun _ => hDangling (by simp))).weaken
        rintro s rfl
        exact hNext s hw hKept

end

variable {cfg : Config} {b : Book} {c p : CharId}

/-- The pointer names one of the two sides, and following it changes nothing. -/
theorem names_self (P : World → Prop) {E : Fault → World → Prop} :
    Triple P (return c : Prog CharId) (fun x w => (x = c ∨ x = p) ∧ P w) E :=
  .ret fun _ hw => ⟨.inl rfl, hw⟩

theorem names_partner {E : Fault → World → Prop} (hPartner : (b.deals c).tradePartner = some p)
    (hGone : (b.deals p).presence.online = false → ∀ w, E .gonePartner w) :
    Triple (HasBook b) (tradePartner c) (fun x w => (x = c ∨ x = p) ∧ HasBook b w) E := by
  have hBind : Triple (HasBook b) (tradePartner c >>= fun x => return x)
      (fun x w => (x = c ∨ x = p) ∧ HasBook b w) E :=
    triple_tradePartner hPartner (fun _ => .ret fun _ hw => ⟨.inr rfl, hw⟩) hGone
  rwa [bind_pure] at hBind

theorem names_partner_torn {E : Fault → World → Prop}
    (hPartner : (b.deals c).tradePartner = some p) (hGone : ∀ w, E .gonePartner w)
    (hNull : ∀ w, E .nullPartner w) :
    Triple (Torn b c p) (tradePartner c) (fun x w => (x = c ∨ x = p) ∧ Torn b c p w) E := by
  have hBind : Triple (fun w => EndedBy b c p w ∨ EndedBy b p c w)
      (tradePartner c >>= fun x => return x) (fun x w => (x = c ∨ x = p) ∧ Torn b c p w) E :=
    triple_ended hNull
  rw [bind_pure] at hBind
  apply Triple.either _ hBind
  apply (names_partner hPartner fun _ => hGone).strengthen
  exact fun _ _ hw => ⟨hw.1, .inl hw.2⟩

theorem torn_kept {w : World} {owner : CharId} (hOther : p ≠ c) (hOwner : owner = c ∨ owner = p)
    (hw : Torn b c p w) (hKept : (w.characters owner).tradeInventory ≠ []) : HasBook b w := by
  have hEnded : ∀ x y, y ≠ x → (owner = x ∨ owner = y) → ¬EndedBy b x y w := by
    rintro x y hxy hOwner ⟨_, hw⟩
    apply hKept
    have hDeal := congrArg (fun b : Book => (b.deals owner).tradeInventory) hw
    simp only [Book.part, Book.modify_deals, Book.close_deals b hxy] at hDeal
    change (w.characters owner).tradeInventory = _ at hDeal
    grind
  rcases hw with hw | hw | hw
  · exact hw
  · exact (hEnded c p hOther hOwner hw).elim
  · exact (hEnded p c hOther.symm hOwner.symm hw).elim

/-- The loop with quests that may do anything. -/
theorem swapOffer_wild (h : Sound b) (hTrading : (b.deals c).trading)
    (hPartner : (b.deals c).tradePartner = some p) (hBusy : (b.deals p).trading)
    {owner : CharId} (hOwner : owner = c ∨ owner = p) {giver taker : Prog CharId}
    (hGiver : giver = (return c) ∨ giver = tradePartner c)
    (hTaker : taker = (return c) ∨ taker = tradePartner c)
    (quests : Quests) (items : List CharacterItem) :
    Triple (HasBook b) (swapOffer cfg owner giver taker quests items) (fun _ => HasBook b)
      (ThrownTorn b c p) := by
  have hOther := h.partner_other hPartner
  have hBack := (h.partner c p hTrading hPartner).1
  have hNames : ∀ who : Prog CharId, who = (return c) ∨ who = tradePartner c →
      Triple (Torn b c p) who (fun x w => (x = c ∨ x = p) ∧ Torn b c p w) (ThrownTorn b c p) := by
    rintro who (rfl | rfl)
    · exact names_self _
    · exact names_partner_torn hPartner (by simp [ThrownTorn]) (by simp [ThrownTorn])
  apply triple_swapOffer (fun x => x = c ∨ x = p) (fun _ => True) (fun _ hw => .inl hw)
    (hNames giver hGiver) (hNames taker hTaker) _ (fun x _ w f hf _ hw => hw.other hf)
    (fun _ _ _ => trivial) (by simp [ThrownTorn]) (fun w => torn_kept hOther hOwner)
  rintro x (rfl | rfl) quests _
  · exact check_busy hTrading hPartner hOther _ quests
  · apply (check_busy hBusy hBack hOther.symm _ quests).conseq
    · exact fun _ => Torn.symm
    · exact fun _ _ => Torn.symm
    · exact fun _ _ hw hFault => (hw hFault).symm

/-- The loop with quests that move nobody. -/
theorem swapOffer_calm {E : Fault → World → Prop} (hPartner : (b.deals c).tradePartner = some p)
    (hThrown : ∀ e w, Thrown (HasBook b) e w → E e w)
    (hGone : (b.deals p).presence.online = false → ∀ w, E .gonePartner w)
    {owner : CharId} {giver taker : Prog CharId}
    (hGiver : giver = (return c) ∨ giver = tradePartner c)
    (hTaker : taker = (return c) ∨ taker = tradePartner c) {quests : Quests}
    (hStays : quests.All (Stays cfg)) {items : List CharacterItem}
    (hItems : items ≠ [] → (b.deals owner).tradeInventory ≠ []) :
    Triple (HasBook b) (swapOffer cfg owner giver taker quests items) (fun _ => HasBook b) E := by
  have hNames : ∀ who : Prog CharId, who = (return c) ∨ who = tradePartner c →
      Triple (HasBook b) who (fun x w => (x = c ∨ x = p) ∧ HasBook b w) E := by
    rintro who (rfl | rfl)
    · exact names_self _
    · exact names_partner hPartner hGone
  apply triple_swapOffer (fun x => x = c ∨ x = p) (Stays cfg) (fun _ hw => hw) (hNames giver hGiver) (hNames taker hTaker) _
    (fun x _ => indifferent_hasBook b) hStays _ (fun _ hw _ => hw)
  · intro x _ quests hStays
    exact (check_still _ hStays).conseq (fun _ => id) (fun _ _ => id) hThrown
  · intro hSome w hw hCleared
    apply absurd _ (hItems hSome)
    rw [← hw]
    exact hCleared

/-- A quiet check of a character that stays out of the trades throws nothing. -/
theorem check_quiet {depth : Nat} {quests : Quests} (hQuiet : quests.Quiet depth)
    (hWarp : (b.deals c).trading = false ∨ quests.All (Stays cfg)) :
    Triple (HasBook b) (checkQuestRules cfg depth quests c) (fun _ => HasBook b)
      (fun _ _ => False) := by
  induction depth generalizing quests with
  | zero =>
      apply Triple.branch
      · intro _
        exact .ret fun _ hw => hw
      · intro hSome
        exact (hSome hQuiet).elim
  | succ depth ih =>
      have hActions : ∀ actions (quests : Quests), Quests.Quiet.go (Quests.Quiet depth) quests actions →
          ((b.deals c).trading = false ∨
            quests.All (Stays cfg) ∧ ∀ action ∈ actions, Stays cfg action) →
          Triple (HasBook b) (runActions cfg (checkQuestRules cfg depth) quests c actions)
            (fun _ => HasBook b) (fun _ _ => False) := by
        intro actions
        induction actions with
        | nil => exact fun _ _ _ => .ret fun _ hw => hw
        | cons action actions ihActions =>
            intro quests hQuiet hWarp
            have hSub : ∀ i, (b.deals c).trading = false ∨ (quests.sub i).All (Stays cfg) :=
              fun i => hWarp.imp_right fun h => h.1.sub i
            have hRest := fun hQuiet => ihActions (quests.sub 1) hQuiet
              (hWarp.imp_right fun h => ⟨h.1.sub 1, fun a ha => h.2 a (.tail _ ha)⟩)
            have hInventory : ∀ w inventory, HasBook b w →
                HasBook b (w.modifyCharacter c ({ · with inventory := inventory })) :=
              fun w _ hw => (book_other (by intro _; rfl)).trans hw
            cases action with
            | fail => exact hQuiet.elim
            | calculateStats => exact (ih hQuiet.1 (hSub 0)).seq (hRest hQuiet.2)
            | giveItem item amount =>
                apply Triple.seq (triple_discard _) (hRest hQuiet.2)
                exact triple_addItem (fun w _ hw _ _ _ => hInventory w _ hw) (ih hQuiet.1 (hSub 0))
            | removeItem item amount =>
                apply Triple.seq (triple_discard _) (hRest hQuiet.2)
                exact triple_delItem (fun w _ hw _ _ => hInventory w _ hw) (ih hQuiet.1 (hSub 0))
            | warp map =>
                apply Triple.seq _ (hRest hQuiet.2)
                apply Triple.branch
                · intro hMap
                  have hFree : (b.deals c).trading = false := by
                    rcases hWarp with hFree | ⟨_, hStays⟩
                    · exact hFree
                    · simp [hStays _ (.head _) map rfl] at hMap
                  apply Triple.seq (triple_other (by intro _; rfl))
                  apply Triple.seq (leaveTrade_free hFree)
                  apply Triple.seq (triple_other (by intro _; rfl))
                  exact ih hQuiet.1 (.inl hFree)
                · intro _
                  exact .ret fun _ hw => hw
      exact hActions quests.actions quests hQuiet (hWarp.imp_right fun h => ⟨h, h []⟩)

@[simp] theorem Book.leave_deals (b : Book) (c p x : CharId) : (b.leave c p).deals x =
    if x = c then { b.deals c with trading := false, tradeInventory := [], tradeAgree := false }
    else b.deals x := by
  simp [Book.leave]

/-- The end of `Trade_Agree`, from the moment at which one side has left. -/
theorem triple_swapEnd {E : Fault → World → Prop} {quests : Quests} (After : World → Prop)
    (hPartner : (b.deals c).tradePartner = some p) (hOther : p ≠ c)
    (hGone : (b.deals p).presence.online = false → ∀ w, E .gonePartner w)
    (hSelf : Triple (HasBook (b.leave c p)) (check cfg (quests.sub 2) c)
      (fun _ => HasBook (b.leave c p)) E)
    (hCheck : Triple (HasBook (b.leave c p)) (check cfg (quests.sub 3) p) (fun _ => After) E)
    (hAfter : ∀ {f : CharId → Prog Unit} {Q}, Triple (HasBook (b.leave c p))
      (tradePartner c >>= f) Q E → Triple After (tradePartner c >>= f) Q E) :
    Triple (HasBook b) (swapEnd cfg quests c)
      (fun _ => HasBook ((b.close c p).part c p)) E := by
  have hPartner' : ((b.leave c p).deals c).tradePartner = some p := by simpa using hPartner
  have hGone' : ((b.leave c p).deals p).presence.online = false → ∀ w, E .gonePartner w := by
    simpa [hOther] using hGone
  apply triple_tradePartner hPartner _ hGone
  intro _
  apply Triple.seq (triple_modify
    ({ · with trading := false, tradeInventory := [], tradeAgree := false }) (by intro _; rfl))
  apply Triple.seq triple_note
  apply Triple.seq hSelf
  apply triple_tradePartner hPartner' _ hGone'
  intro _
  apply Triple.seq hCheck
  apply hAfter
  apply triple_tradePartner hPartner' _ hGone'
  intro _
  apply Triple.seq (triple_modify ({ · with trading := false, tradeInventory := [] })
    (by intro _; rfl))
  apply Triple.seq (triple_modify ({ · with tradeAgree := false }) (by intro _; rfl))
  apply triple_tradePartner (p := p)
  · simp [hOther.symm, hPartner]
  · intro _
    apply Triple.seq (triple_modify ({ · with tradePartner := none }) (by intro _; rfl))
    exact triple_modify ({ · with tradePartner := none }) (by intro _; rfl)
  · simpa [hOther] using hGone

/-- The swap from its start to the moment before one side leaves. -/
theorem triple_tradeSwap {E : Fault → World → Prop} {quests : Quests} {Q : Unit → World → Prop}
    (hPartner : (b.deals c).tradePartner = some p)
    (hGone : (b.deals p).presence.online = false → ∀ w, E .gonePartner w)
    (hFirst : ∀ items, items = (b.deals p).tradeInventory →
      Triple (HasBook (b.note (.swapped c p)))
        (swapOffer cfg p (tradePartner c) (return c) (quests.sub 0) items)
        (fun _ => HasBook (b.note (.swapped c p))) E)
    (hSecond : ∀ items, items = (b.deals c).tradeInventory →
      Triple (HasBook (b.note (.swapped c p)))
        (swapOffer cfg c (return c) (tradePartner c) (quests.sub 1) items)
        (fun _ => HasBook (b.note (.swapped c p))) E)
    (hEnd : Triple (HasBook (b.note (.swapped c p))) (swapEnd cfg quests c) Q E) :
    Triple (HasBook b) (tradeSwap cfg quests c) Q E := by
  apply triple_tradePartner hPartner _ hGone
  intro _
  apply Triple.seq triple_note
  apply triple_getDeal
  intro partner hDeal
  apply Triple.seq (hFirst _ (congrArg Deal.tradeInventory hDeal))
  apply triple_getDeal
  intro self hDeal
  exact (hSecond _ (congrArg Deal.tradeInventory hDeal)).seq hEnd

theorem Sound.swapped (h : Sound b) (hTrading : (b.deals c).trading)
    (hPartner : (b.deals c).tradePartner = some p) (hAgree : (b.deals c).tradeAgree)
    (hPartnerAgree : (b.deals p).tradeAgree) :
    Relation.ReflTransGen Move b (((b.note (.swapped c p)).close c p).part c p) :=
  ((h.swap hTrading hPartner hAgree hPartnerAgree).close_part hTrading hPartner).head
    (.swap hTrading hPartner hAgree hPartnerAgree)

/-- A swap with quests that move nobody and, at its end, throw nothing. -/
theorem tradeSwap_calm (h : Sound b) (hTrading : (b.deals c).trading)
    (hPartner : (b.deals c).tradePartner = some p) (hAgree : (b.deals c).tradeAgree)
    (hPartnerAgree : (b.deals p).tradeAgree) {quests : Quests}
    (hFirst : (quests.sub 0).All (Stays cfg)) (hSecond : (quests.sub 1).All (Stays cfg))
    (hSelf : (quests.sub 2).Quiet maxRecursion) (hOther : (quests.sub 3).Quiet maxRecursion)
    (hOtherStays : (quests.sub 3).All (Stays cfg)) :
    Triple (HasBook b) (tradeSwap cfg quests c) (fun _ => Reached b) (Orderly b) := by
  have hGone : (b.deals p).presence.online = false → ∀ w, Orderly b .gonePartner w :=
    fun hGone _ => .inr ⟨rfl, h.not_attended hTrading hPartner hGone⟩
  have hSwap : Move b (b.note (.swapped c p)) := .swap hTrading hPartner hAgree hPartnerAgree
  have hThrown : ∀ e w, Thrown (HasBook (b.note (.swapped c p))) e w → Orderly b e w :=
    fun e w hw => orderly_thrown (.single hSwap) hw
  apply triple_tradeSwap hPartner hGone
  · rintro items rfl
    exact swapOffer_calm (b := b.note (.swapped c p)) hPartner hThrown hGone (.inr rfl) (.inl rfl)
      hFirst id
  · rintro items rfl
    exact swapOffer_calm (b := b.note (.swapped c p)) hPartner hThrown hGone (.inl rfl) (.inr rfl)
      hSecond id
  · apply Triple.strengthen (triple_swapEnd (b := b.note (.swapped c p))
      (HasBook ((b.note (.swapped c p)).leave c p)) hPartner (h.partner_other hPartner) hGone
      ((check_quiet hSelf (.inl (by simp))).conseq (fun _ => id) (fun _ _ => id) (by simp))
      ((check_quiet hOther (.inr hOtherStays)).conseq (fun _ => id) (fun _ _ => id) (by simp)) id)
    intro _ w hw
    rw [Reached, hw]
    exact h.swapped hTrading hPartner hAgree hPartnerAgree

/-- The client of the character is closed after an exception. -/
def WildClosed (b : Book) (c : CharId) (e : Fault) (w : World) : Prop :=
  e = .runtimeError → Moves b (book (closeClient w (some c)))

theorem book_closeClient (w : World) (c : CharId) :
    book (closeClient w (some c)) = (book w).disconnect c := by
  unfold closeClient
  exact book_modifyCharacter ({ · with presence := .closed }) (by intro _; rfl)

theorem Reached.closed {w : World} (h : Reached b w) : Moves b (book (closeClient w (some c))) := by
  rw [book_closeClient]
  exact .of_reflTransGen (h.tail .disconnect)

theorem close_disconnect (b : Book) (c p x : CharId) :
    (b.close c p).disconnect x = (b.disconnect x).close c p := by
  ext1
  · funext y
    simp only [Book.close, Book.disconnect, Book.modify_deals, Book.note_deals]
    grind
  · rfl

theorem part_disconnect (b : Book) (c p x : CharId) :
    (b.part c p).disconnect x = (b.disconnect x).part c p := by
  ext1
  · funext y
    simp only [Book.part, Book.disconnect, Book.modify_deals]
    grind
  · rfl

/-- An exception between the two halves of the end leaves one side alone, or
throws it out of the trade as well. -/
theorem tearing_closed (hTrading : (b.deals c).trading) (hPartner : (b.deals c).tradePartner = some p)
    (hBusy : (b.deals p).trading) (hBack : (b.deals p).tradePartner = some c) (hOther : p ≠ c)
    {w : World} (hw : Tearing (b.leave c p) p c w) : Moves b (book (closeClient w (some c))) := by
  have hAbandon : Moves b ((b.leave c p).disconnect c) := .single (.inr (.intro hTrading hPartner))
  have hClose : Move ((b.leave c p).disconnect c) (((b.leave c p).disconnect c).close p c) := by
    apply Move.close
    · simpa [Book.disconnect, hOther] using hBusy
    · simpa [Book.disconnect, hOther] using hBack
  rw [book_closeClient]
  rcases hw with (hw | ⟨_, hw⟩ | ⟨hNot, _⟩) | ⟨_, hw⟩ | ⟨hNot, _⟩
  · rw [hw]
    exact hAbandon
  · rw [hw, part_disconnect, close_disconnect]
    apply (hAbandon.tail (.inl hClose)).tail
    apply Or.inl
    apply Move.part
    · simp [Book.close_deals _ hOther.symm]
    · simp [Book.close_deals _ hOther.symm, hOther.symm]
    · simpa [Book.close_deals _ hOther.symm, Book.disconnect, hOther] using hBack
    · simpa [Book.close_deals _ hOther.symm, Book.disconnect, hOther.symm] using hPartner
  · simp at hNot
  · rw [hw, close_disconnect]
    exact hAbandon.tail (.inl hClose)
  · simp at hNot

/-- A swap with quests that may do anything. -/
theorem tradeSwap_wild (h : Sound b) (hTrading : (b.deals c).trading)
    (hPartner : (b.deals c).tradePartner = some p) (hAgree : (b.deals c).tradeAgree)
    (hPartnerAgree : (b.deals p).tradeAgree) {quests : Quests} :
    Triple (HasBook b) (tradeSwap cfg quests c) (fun _ => Reached b) (WildClosed b c) := by
  have hOther := h.partner_other hPartner
  obtain ⟨hBack, hBusy⟩ := h.partner c p hTrading hPartner
  replace hBusy : (b.deals p).trading := by
    rcases hBusy with hBusy | ⟨_, hNot⟩
    · exact hBusy
    · simp [hNot] at hPartnerAgree
  have hSwap : Move b (b.note (.swapped c p)) := .swap hTrading hPartner hAgree hPartnerAgree
  have hSound := hSwap.sound h
  have hFirst : Moves b (b.note (.swapped c p)) := .single (.inl hSwap)
  have hTorn : ∀ e w, ThrownTorn (b.note (.swapped c p)) c p e w → WildClosed b c e w := by
    intro e w hw hFault
    exact hFirst.trans (hSound.reached_tearing hTrading hPartner (hw hFault)).closed
  have hLeft : ∀ e w, ThrownTorn ((b.note (.swapped c p)).leave c p) p c e w → WildClosed b c e w := by
    intro e w hw hFault
    exact hFirst.trans (tearing_closed (b := b.note (.swapped c p)) hTrading hPartner hBusy hBack
      hOther (hw hFault))
  have hNoFault : ∀ e w, e ≠ .runtimeError → WildClosed b c e w := fun e w hNot hFault =>
    (hNot hFault).elim
  apply triple_tradeSwap hPartner fun _ w => hNoFault _ w (by simp)
  · rintro items _
    exact (swapOffer_wild hSound hTrading hPartner hBusy (.inr rfl) (.inr rfl) (.inl rfl) _ _).conseq
      (fun _ => id) (fun _ _ => id) hTorn
  · rintro items _
    exact (swapOffer_wild hSound hTrading hPartner hBusy (.inl rfl) (.inl rfl) (.inr rfl) _ _).conseq
      (fun _ => id) (fun _ _ => id) hTorn
  · apply (triple_swapEnd (b := b.note (.swapped c p)) (Torn ((b.note (.swapped c p)).leave c p) p c)
      hPartner hOther (fun _ w => hNoFault _ w (by simp)) _ _ _).strengthen
    · intro _ w hw
      rw [Reached, hw]
      exact h.swapped hTrading hPartner hAgree hPartnerAgree
    · apply (check_free (by simp) _ _).conseq (fun _ => id) (fun _ _ => id)
      intro e w hw
      exact hLeft e w fun _ => .inl (.inl hw.2)
    · exact (check_busy (by simpa [hOther] using hBusy) (by simpa [hOther] using hBack) hOther.symm
        _ _).conseq (fun _ => .inl) (fun _ _ => id) hLeft
    · intro f Q hBoth
      apply Triple.either hBoth
      apply (triple_ended (c := c) (p := p) fun w => hNoFault _ w (by simp)).weaken
      exact fun _ => Or.symm

/-- The book in which the character has answered. -/
def Book.answer (b : Book) (c p : CharId) (agree : Bool) : Book :=
  (b.modify c ({ · with tradeAgree := agree })).note (.agreed c p agree)

section

variable {E : Fault → World → Prop} {quests : Quests} {agree : UInt8} {Q : World → Prop}

theorem tradeAgree_free (hFree : (b.deals c).trading = false) :
    Triple (HasBook b) (tradeAgree cfg quests c agree) (fun _ => HasBook b) E := by
  apply Triple.read
  intro w hw
  obtain rfl : book w = b := hw
  have hSelf : (w.characters c).trading = false := hFree
  apply Triple.branch
  · intro _
    exact .ret fun s hs => hs ▸ rfl
  · intro hBusy
    exact (hBusy (by simp [hSelf])).elim

/-- `Trade_Agree` up to the swap. -/
theorem triple_tradeAgree (hTrading : (b.deals c).trading)
    (hPartner : (b.deals c).tradePartner = some p) (hOther : p ≠ c)
    (hAnswer : ∀ w, HasBook (b.answer c p (agree ≠ 0)) w → Q w)
    (hGone : (b.deals p).presence.online = false →
      ∀ w, HasBook (b.answer c p (agree ≠ 0)) w → E .gonePartner w)
    (hSwap : agree ≠ 0 → (b.deals c).tradeInventory ≠ [] → (b.deals p).tradeAgree →
      Triple (HasBook (b.answer c p true)) (tradeSwap cfg quests c) (fun _ => Q) E) :
    Triple (HasBook b) (tradeAgree cfg quests c agree) (fun _ => Q) E := by
  have hPartner' : ((b.answer c p (agree ≠ 0)).deals c).tradePartner = some p := by
    simpa [Book.answer] using hPartner
  have hGone' : ((b.answer c p (agree ≠ 0)).deals p).presence.online = false →
      ∀ w, HasBook (b.answer c p (agree ≠ 0)) w → E .gonePartner w := by
    simpa [Book.answer, hOther] using hGone
  apply Triple.read
  intro w hw
  obtain rfl : book w = b := hw
  have hFirst : (w.characters c).tradePartner = some p := hPartner
  apply Triple.branch
  · intro hFree
    exact (hFree hTrading).elim
  intro _
  rw [hFirst]
  apply Triple.weaken (P := HasBook (book w)) (by rintro s rfl; rfl)
  apply Triple.seq (triple_modify ({ · with tradeAgree := agree ≠ 0 }) (by intro _; rfl))
  apply Triple.seq triple_note
  change Triple (HasBook ((book w).answer c p (agree ≠ 0))) _ _ _
  apply Triple.branch
  · intro hAgree
    apply Triple.branch (fun _ => .ret hAnswer)
    intro hOffer
    apply triple_followPartner hPartner' _ hGone'
    intro _
    apply triple_getDeal
    intro partner hDeal
    have hFlag : partner.tradeAgree = ((book w).deals p).tradeAgree :=
      (congrArg Deal.tradeAgree hDeal).trans (by simp [Book.answer, hOther])
    apply Triple.branch _ (fun _ => .ret hAnswer)
    intro hPartnerAgree
    have hRun := hSwap hAgree hOffer (hFlag ▸ hPartnerAgree)
    simpa [hAgree] using hRun
  · intro _
    apply triple_discard
    have hBind : Triple (HasBook ((book w).answer c p (agree ≠ 0)))
        (tradePartner c >>= fun x => return x) (fun _ => Q) E :=
      triple_followPartner hPartner' (fun _ => .ret hAnswer) hGone'
    rwa [bind_pure] at hBind

end

/-- A swap is near: the partner has agreed, and there is something to give. -/
def SwapNear (b : Book) (c : CharId) (agree : UInt8) : Prop :=
  (b.deals c).trading ∧ agree ≠ 0 ∧ (b.deals c).tradeInventory ≠ [] ∧
    ∃ p, (b.deals c).tradePartner = some p ∧ (b.deals p).tradeAgree

/-- The quests of a swap move nobody and throw nothing at its end. Those of the
side that has left may warp it. -/
structure CalmSwap (cfg : Config) (quests : Quests) : Prop where
  first : (quests.sub 0).All (Stays cfg)
  second : (quests.sub 1).All (Stays cfg)
  self : (quests.sub 2).Quiet maxRecursion
  partner : (quests.sub 3).Quiet maxRecursion
  partnerStays : (quests.sub 3).All (Stays cfg)

section

variable {quests : Quests} {agree : UInt8} (h : Sound b)

include h

theorem answer_moves (hTrading : (b.deals c).trading)
    (hPartner : (b.deals c).tradePartner = some p) (hOther : p ≠ c) (agree : Bool) :
    Move b (b.answer c p agree) ∧ Sound (b.answer c p agree) ∧
      ((b.answer c p agree).deals c).trading ∧
      ((b.answer c p agree).deals c).tradePartner = some p ∧
      ((b.answer c p agree).deals c).tradeAgree = agree ∧
      ((b.answer c p agree).deals p).tradeAgree = (b.deals p).tradeAgree := by
  have hMove : Move b (b.answer c p agree) := .agree agree hTrading hPartner
  exact ⟨hMove, hMove.sound h, by simpa [Book.answer] using hTrading,
    by simpa [Book.answer] using hPartner, by simp [Book.answer], by simp [Book.answer, hOther]⟩

theorem agree_wild :
    Triple (HasBook b) (tradeAgree cfg quests c agree) (fun _ => Reached b) (WildClosed b c) := by
  cases hTrading : (b.deals c).trading with
  | false => exact (tradeAgree_free hTrading).strengthen fun _ _ => reached_self
  | true =>
      obtain ⟨p, hPartner⟩ := Option.isSome_iff_exists.mp (h.present c hTrading)
      have hOther := h.partner_other hPartner
      obtain ⟨hMove, hSound, hTrading', hPartner', hAgree, hFlag⟩ :=
        answer_moves h hTrading hPartner hOther true
      apply triple_tradeAgree hTrading hPartner hOther
      · intro w hw
        rw [Reached, hw]
        exact .single (.agree _ hTrading hPartner)
      · exact fun _ w _ hFault => by simp at hFault
      · intro _ _ hPartnerAgree
        apply (tradeSwap_wild hSound hTrading' hPartner' hAgree (hFlag ▸ hPartnerAgree)).conseq
          (fun _ => id)
        · exact fun _ _ hReached => hReached.head hMove
        · exact fun e w hw hFault => (hw hFault).head (.inl hMove)

theorem agree_calm (hCalm : SwapNear b c agree → CalmSwap cfg quests) :
    Triple (HasBook b) (tradeAgree cfg quests c agree) (fun _ => Reached b) (Orderly b) := by
  cases hTrading : (b.deals c).trading with
  | false => exact (tradeAgree_free hTrading).strengthen fun _ _ => reached_self
  | true =>
      obtain ⟨p, hPartner⟩ := Option.isSome_iff_exists.mp (h.present c hTrading)
      have hOther := h.partner_other hPartner
      obtain ⟨hMove, hSound, hTrading', hPartner', hAgree, hFlag⟩ :=
        answer_moves h hTrading hPartner hOther true
      apply triple_tradeAgree hTrading hPartner hOther
      · intro w hw
        rw [Reached, hw]
        exact .single (.agree _ hTrading hPartner)
      · exact fun hGone w _ => .inr ⟨rfl, h.not_attended hTrading hPartner hGone⟩
      · intro hYes hOffer hPartnerAgree
        have hQuests := hCalm ⟨hTrading, hYes, hOffer, p, hPartner, hPartnerAgree⟩
        apply (tradeSwap_calm hSound hTrading' hPartner' hAgree (hFlag ▸ hPartnerAgree) hQuests.first
          hQuests.second hQuests.self hQuests.partner hQuests.partnerStays).conseq (fun _ => id)
        · exact fun _ _ hReached => hReached.head hMove
        · rintro e w (⟨hFault, hReached⟩ | ⟨hFault, hNot⟩)
          · exact .inl ⟨hFault, hReached.head hMove⟩
          · exact .inr ⟨hFault, fun hAttended => hNot (hMove.attended h hAttended)⟩

end

end Etheos.Trade
