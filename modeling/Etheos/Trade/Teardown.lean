import Etheos.Trade.Pairing

/-! How trades end. The ends all reset one flag of the side that leaves twice, and the flag of the
other side not at all. -/
namespace Etheos.Trade

open Characters General

/-- The side of a trade that is over, with nothing left of it. -/
structure Deal.Cleared (deal : Deal) : Prop where
  trading : deal.trading = false
  tradeInventory : deal.tradeInventory = []
  tradeAgree : deal.tradeAgree = false
  tradePartner : deal.tradePartner = none

/-- Of every trade that is over in the second book, both sides are reset. -/
def Tidy (b b' : Book) : Prop :=
  ∀ x y, (b.deals x).trading → (b.deals x).tradePartner = some y → (b'.deals x).trading = false →
    (b'.deals x).Cleared ∧ (b'.deals y).Cleared

/-- Everybody who trades in the one book does so in the other. -/
def Staying (b b' : Book) : Prop := ∀ x, (b.deals x).trading → (b'.deals x).trading

theorem Staying.refl (b : Book) : Staying b b := fun _ hx => hx

variable {cfg : Config} {b b' : Book} {c p : CharId}

theorem Staying.tidy (h : Staying b b') : Tidy b b' := by
  intro x y hTrading _ hFree
  simp [h x hTrading] at hFree

theorem Staying.modify (h : Staying b b') {f : Deal → Deal}
    (hKept : (b'.deals c).trading → (f (b'.deals c)).trading) : Staying b (b'.modify c f) := by
  intro x hTrading
  have hx := h x hTrading
  simp only [Book.modify_deals]
  grind

theorem Staying.note (h : Staying b b') (n : Note) : Staying b (b'.note n) := h

/-- Where somebody is does not matter to the trades that are over. -/
theorem Tidy.presence (h : Tidy b b') (presence : Presence) :
    Tidy b (b'.modify c ({ · with presence := presence })) := by
  have hCleared : ∀ x, (b'.deals x).Cleared →
      ((b'.modify c ({ · with presence := presence })).deals x).Cleared := by
    intro x hx
    simp only [Book.modify_deals]
    split
    case isTrue hSame =>
      subst hSame
      exact ⟨hx.trading, hx.tradeInventory, hx.tradeAgree, hx.tradePartner⟩
    case isFalse => exact hx
  intro x y hTrading hPartner hFree
  have hSame : (b'.deals x).trading = false := by
    simp only [Book.modify_deals] at hFree
    grind
  obtain ⟨hx, hy⟩ := h x y hTrading hPartner hSame
  exact ⟨hCleared x hx, hCleared y hy⟩

theorem tidy_closeClient {w : World} (h : Tidy b (book w)) (sender : Option CharId) :
    Tidy b (book (closeClient w sender)) := by
  cases sender with
  | none => exact h
  | some c =>
      rw [book_closeClient]
      exact h.presence .closed

theorem Book.closed_deals (b : Book) (hOther : p ≠ c) (x : CharId) :
    ((b.close c p).part c p).deals x =
      if x = c then ⟨(b.deals c).presence, false, none, false, []⟩
      else if x = p then ⟨(b.deals p).presence, false, none, (b.deals p).tradeAgree, []⟩
      else b.deals x := by
  simp only [Book.part, Book.modify_deals, Book.close_deals b hOther]
  grind

/-- The end of a trade leaves everything reset if the other side has not agreed. -/
theorem Sound.tidy_closed (h : Sound b) (hTrading : (b.deals c).trading)
    (hPartner : (b.deals c).tradePartner = some p) (hFlag : (b.deals p).tradeAgree = false) :
    Tidy b ((b.close c p).part c p) := by
  have hOther := h.partner_other hPartner
  have hBack := (h.partner c p hTrading hPartner).1
  have hBoth : (((b.close c p).part c p).deals c).Cleared ∧
      (((b.close c p).part c p).deals p).Cleared := by
    simp only [Book.closed_deals b hOther, hOther, if_true, if_false, hFlag]
    exact ⟨⟨rfl, rfl, rfl, rfl⟩, ⟨rfl, rfl, rfl, rfl⟩⟩
  intro x y hx hy hFree
  by_cases hSelf : x = c
  · subst hSelf
    rw [hPartner] at hy
    obtain rfl := Option.some.inj hy
    exact hBoth
  by_cases hSide : x = p
  · subst hSide
    rw [hBack] at hy
    obtain rfl := Option.some.inj hy
    exact hBoth.symm
  · rw [Book.closed_deals b hOther, if_neg hSelf, if_neg hSide] at hFree
    simp [hx] at hFree

/-- Whoever leaves a trade with these quests leaves it before the other side has agreed, and
neither of the two quest checks throws. -/
def Tended (b : Book) (c : CharId) (quests : Quests) : Prop :=
  ∀ p, (b.deals c).trading → (b.deals c).tradePartner = some p →
    (b.deals p).tradeAgree = false ∧ (quests.sub 0).Quiet maxRecursion ∧ (quests.sub 1).Quiet maxRecursion

section

variable {E : Fault → World → Prop} {quests : Quests} (h : Sound b) (hAttended : Attended b)
  (hTended : Tended b c quests)

include h hAttended hTended

theorem tidy_closeTrade (hTrading : (b.deals c).trading) :
    Triple (HasBook b) (closeTrade (check cfg) quests c) (fun _ => FreeIn (Tidy b) c) E := by
  obtain ⟨p, hPartner⟩ := Option.isSome_iff_exists.mp (h.present c hTrading)
  obtain ⟨hFlag, hSelf, hPartnerSelf⟩ := hTended p hTrading hPartner
  have hOther := h.partner_other hPartner
  obtain ⟨hFree, hPartnerFree⟩ := close_free b hOther
  have hOnline : (b.deals p).presence.online = true := h.online p (hAttended c p hTrading hPartner)
  apply Triple.strengthen (triple_closing hPartner hOther _ _ (by simp [hOnline]))
  · intro _ w hw
    exact ⟨by rw [hw]; exact h.tidy_closed hTrading hPartner hFlag, by rw [hw]; exact part_free b hOther⟩
  · exact (check_quiet hSelf (.inl hFree)).conseq (fun _ => id) (fun _ _ => id) (by simp)
  · exact (check_quiet hPartnerSelf (.inl hPartnerFree)).conseq (fun _ => id) (fun _ _ => id) (by simp)

theorem tidy_leaveTrade :
    Triple (HasBook b) (leaveTrade (check cfg) quests c) (fun _ => FreeIn (Tidy b) c) E :=
  triple_leaving (fun _ => (Staying.refl b).tidy) fun hTrading => tidy_closeTrade h hAttended hTended hTrading

end

/-- What the handlers leave behind, also when they throw. -/
def TidyNow (b : Book) (w : World) : Prop := Tidy b (book w)

theorem tidyNow_of_staying {w : World} (h : Staying b b') (hw : HasBook b' w) : TidyNow b w := by
  rw [TidyNow, hw]
  exact h.tidy

section

variable {E : Fault → World → Prop}

theorem tidy_tradeRequest {victim : CharId} :
    Triple (HasBook b) (tradeRequest cfg c victim) (fun _ => TidyNow b) E := by
  apply triple_tradeRequest fun _ => tidyNow_of_staying (.refl b)
  intro _ _ w
  apply tidyNow_of_staying
  exact (Staying.refl b).modify fun hKept => hKept

theorem tidy_tradeAccept {victim : CharId} :
    Triple (HasBook b) (tradeAccept cfg c victim) (fun _ => TidyNow b) E := by
  apply triple_tradeAccept fun _ => tidyNow_of_staying (.refl b)
  intro _ _ _ _ w
  apply tidyNow_of_staying
  apply Staying.note
  apply Staying.modify _ fun _ => rfl
  exact (Staying.refl b).modify fun _ => rfl

/-- As long as the quests move nobody, a change of the offer ends no trade. -/
theorem offerRules_tidy (h : Sound b) (hAttended : Attended b) :
    OfferRules b c (TidyNow b) (fun _ => TidyNow b) := by
  intro p hTrading hPartner
  have hOffer : ∀ items, Staying b (b.offer c items) :=
    fun items => (Staying.refl b).modify fun hKept => hKept
  have hOnline : (b.deals p).presence.online = true := h.online p (hAttended c p hTrading hPartner)
  exact {
    same := fun _ => tidyNow_of_staying (.refl b)
    thrown := fun items _ _ hw => tidyNow_of_staying (hOffer items) hw.2
    changed := by
      intro items w
      apply tidyNow_of_staying
      apply Staying.note
      apply Staying.modify _ fun hKept => hKept
      exact (hOffer items).modify fun hKept => hKept
    gone := by simp [hOnline] }

/-- Before the other side has agreed, an answer ends no trade. -/
theorem tidy_tradeAgree (h : Sound b) (quests : Quests) {agree : UInt8} (hFar : ¬SwapNear b c agree) :
    Triple (HasBook b) (tradeAgree cfg quests c agree) (fun _ => TidyNow b) (fun _ => TidyNow b) := by
  cases hTrading : (b.deals c).trading with
  | false => exact (tradeAgree_free hTrading).strengthen fun _ _ => tidyNow_of_staying (.refl b)
  | true =>
      obtain ⟨p, hPartner⟩ := Option.isSome_iff_exists.mp (h.present c hTrading)
      have hAnswer : ∀ w, HasBook (b.answer c p (agree ≠ 0)) w → TidyNow b w := by
        intro w
        apply tidyNow_of_staying
        apply Staying.note
        exact (Staying.refl b).modify fun hKept => hKept
      apply triple_tradeAgree hTrading hPartner (h.partner_other hPartner) hAnswer (fun _ => hAnswer)
      intro hYes hOffer hPartnerAgree
      exact (hFar ⟨hTrading, hYes, hOffer, p, hPartner, hPartnerAgree⟩).elim

theorem tidy_worldLogin (h : Sound b) (hAbsent : (b.deals c).presence = .absent) (quests : Quests)
    (saved : Character) :
    Triple (HasBook b) (worldLogin cfg quests c saved) (fun _ => TidyNow b) (fun _ => TidyNow b) := by
  apply triple_worldLogin saved _ fun _ _ hw => hw.2
  intro w
  apply tidyNow_of_staying
  apply (Staying.refl b).modify
  intro hTrading
  have hOnline := h.online c hTrading
  simp [hAbsent, Presence.online] at hOnline

end

/-- Steps that leave a flag or a partner behind, or may do so: a trade is completed, its end finds
the other side agreed or a quest that throws, or a quest moves someone out of the trade whose offer
changes. -/
def Neglects (cfg : Config) : Server → Event → Prop
  | .running w, .close c quests | .running w, .logout _ c quests => ¬Tended (book w) c quests
  | .running w, .walk c direction time _ quests =>
      Walks cfg w c direction time ∧ ¬Tended (book w) c (quests.sub 0)
  | .running w, .warp _ c map quests => cfg.mapExists map ∧ ¬Tended (book w) c (quests.sub 0)
  | .running w, .add c _ _ quests | .running w, .remove c _ quests =>
      (w.characters c).trading ∧ ¬quests.All (Stays cfg)
  | .running w, .agree c agree _ => SwapNear (book w) c agree
  | _, _ => False

theorem neglects_of_unpairs {server : Server} {event : Event} (h : Unpairs cfg server event) :
    Neglects cfg server event := by
  cases server with
  | failed fault w => exact h.elim
  | running w =>
      cases event with
      | add | remove => exact h
      | agree => exact h.1
      | request | accept | close | walk | warp | login | logout => exact h.elim

theorem tidy_handler {w : World} (h : Sound (book w)) (hAttended : Attended (book w)) {event : Event}
    (hEnabled : event.enabled w) (hGood : ¬Neglects cfg (.running w) event) :
    Triple (· = w) (event.handler cfg) (fun _ => TidyNow (book w)) (fun _ => TidyNow (book w)) := by
  have hBook : ∀ {x : Prog Unit}, Triple (HasBook (book w)) x (fun _ => TidyNow (book w))
      (fun _ => TidyNow (book w)) →
      Triple (· = w) x (fun _ => TidyNow (book w)) (fun _ => TidyNow (book w)) :=
    fun hx => hx.weaken (by rintro s rfl; rfl)
  have hSame : Tidy (book w) (book w) := (Staying.refl _).tidy
  have hThrown : ∀ e s, Thrown (TidyNow (book w)) e s → TidyNow (book w) s := fun _ _ hs => hs.2
  have hStays : ∀ {c : CharId} {quests : Quests},
      ¬((w.characters c).trading ∧ ¬quests.All (Stays cfg)) →
      ((book w).deals c).trading → quests.All (Stays cfg) := by
    intro c quests hCalm hTrading
    by_contra hMoves
    exact hCalm ⟨hTrading, hMoves⟩
  cases event with
  | request c victim => exact hBook tidy_tradeRequest
  | accept c victim => exact hBook tidy_tradeAccept
  | add c itemid amount quests =>
      exact hBook (add_still h (hStays hGood) (fun _ => tidyNow_of_staying (.refl _))
        (offerRules_tidy h hAttended))
  | remove c itemid quests =>
      exact hBook (remove_still h (hStays hGood) (fun _ => tidyNow_of_staying (.refl _))
        (offerRules_tidy h hAttended))
  | agree c flag quests => exact hBook (tidy_tradeAgree h quests hGood)
  | close c quests =>
      apply hBook
      exact triple_tradeClose (fun _ => hSame) (tidy_closeTrade h hAttended (not_not.mp hGood))
  | walk c direction time tile quests =>
      apply triple_walkCommon hThrown tile fun _ => hSame
      intro hWalks
      apply tidy_leaveTrade h hAttended
      by_contra hNot
      exact hGood ⟨hWalks, hNot⟩
  | warp sender c map quests =>
      apply hBook
      apply triple_warp hThrown fun _ => hSame
      intro hMap
      apply tidy_leaveTrade h hAttended
      by_contra hNot
      exact hGood ⟨hMap, hNot⟩
  | login c saved quests =>
      have hAbsent : ((book w).deals c).presence = .absent := of_decide_eq_true hEnabled
      exact hBook (tidy_worldLogin h hAbsent quests saved)
  | logout sender c quests =>
      apply hBook
      apply triple_characterLogout _ (tidy_leaveTrade h hAttended (not_not.mp hGood))
      exact fun b' hTidy _ => hTidy.presence .gone

/-- The step ends a trade and leaves something of it behind. -/
def Untidy (cfg : Config) (server : Server) (event : Event) : Prop :=
  ∃ next, step cfg server event = some next ∧ ¬Tidy (book server.world) (book next.world)

theorem step_tidy {server : Server} {event : Event} (h : Calm server) (hGood : ¬Neglects cfg server event) :
    ¬Untidy cfg server event := by
  rintro ⟨next, hStep, hNot⟩
  apply hNot
  cases server with
  | failed fault w => simp [step] at hStep
  | running w =>
      obtain ⟨hSound, hAttended⟩ := h
      obtain ⟨hEnabled, hNext⟩ := Option.ite_none_right_eq_some.mp hStep
      obtain rfl := Option.some.inj hNext
      have hRun := tidy_handler hSound hAttended hEnabled hGood w rfl
      cases hResult : event.handler cfg w with
      | ok _ w' =>
          rw [hResult] at hRun
          exact hRun
      | error fault w' =>
          rw [hResult] at hRun
          cases fault with
          | nullPartner | gonePartner | danglingIterator => exact hRun
          | runtimeError =>
              unfold finish
              dsimp only
              split
              · exact hRun
              · exact tidy_closeClient hRun _

/-- In a run without such steps, every trade that ends leaves both sides reset. -/
theorem trades_end_tidy (cfg : Config) {w : World} (h : Initial w) {events : List Event}
    (hAvoids : Avoids (step cfg) (Neglects cfg) (.running w) events) :
    Avoids (step cfg) (Untidy cfg) (.running w) events := by
  have hKeep : ∀ server event next, Calm server → ¬Neglects cfg server event →
      step cfg server event = some next → Calm next := by
    intro server event next hCalm hGood hStep
    exact step_calm hCalm (fun hUnpairs => hGood (neglects_of_unpairs hUnpairs)) hStep
  exact avoids_of_avoids hKeep (fun _ _ => step_tidy) (initial_calm h) hAvoids

/-- 2 agrees to get ten items for nothing, and then closes the trade itself. -/
def droppedTrade : List Event :=
  [.request 1 2, .accept 2 1, .add 1 1 10 .quiet, .agree 2 1 .quiet, .close 2 .quiet]

theorem trades_end_tidy_droppedTrade :
    Avoids (step smallConfig) (Untidy smallConfig) (.running traders) droppedTrade := by
  apply trades_end_tidy smallConfig initial_traders
  refine (avoids_cons rfl _).mpr ⟨fun hBad => hBad, ?_⟩
  refine (avoids_cons rfl _).mpr ⟨fun hBad => hBad, ?_⟩
  refine (avoids_cons rfl _).mpr ⟨fun hBad => hBad.2 (quiet_all _), ?_⟩
  refine (avoids_cons rfl _).mpr ⟨fun hBad => hBad.2.2.1 rfl, ?_⟩
  refine (avoids_cons rfl _).mpr ⟨fun hBad => hBad ?_, avoids_nil⟩
  intro p _ hPartner
  obtain rfl : 1 = p := Option.some.inj hPartner
  exact ⟨rfl, trivial, trivial⟩

/-- This time, it is 1 that closes the trade. -/
def refusedTrade : List Event :=
  [.request 1 2, .accept 2 1, .add 1 1 10 .quiet, .agree 2 1 .quiet, .close 1 .quiet]

theorem not_tidy_refusedTrade :
    ¬Avoids (step smallConfig) (Untidy smallConfig) (.running traders) refusedTrade := by
  intro hAvoids
  apply hAvoids (refusedTrade.take 4) (.close 1 .quiet) _ List.prefix_rfl rfl rfl
  refine ⟨_, rfl, fun hTidy => ?_⟩
  have hFlag := (hTidy 1 2 rfl rfl rfl).2.tradeAgree
  contradiction

end Etheos.Trade
