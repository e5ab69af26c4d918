import Etheos.General.Run
import Etheos.Trade.Aside
import Etheos.Trade.Swap

/-! No items are swapped without the consent of both sides, in any run of trade
packets, walks, warps, logins and logouts. -/
namespace Etheos.Trade

open Characters General

variable {cfg : Config} {c p : CharId}

/-- A property of the log that only a swap can break. -/
def Robust (L : List Note → Prop) : Prop :=
  ∀ log n, L log → (∀ c p, n ≠ .swapped c p) → L (n :: log)

def OfLog (L : List Note → Prop) (w : World) : Prop := L w.log

section Log

variable {L : List Note → Prop}

theorem indifferent_ofLog : Indifferent cfg c (OfLog L) := fun _ _ _ _ hw => hw

theorem keeps_modifyCharacter {f : Character → Character} : Keeps (OfLog L) (modifyCharacter c f) :=
  .modify fun _ hw => hw

variable (hL : Robust L)

include hL

theorem aside_ofLog (cfg : Config) : Aside cfg (OfLog L) where
  change _ _ _ := .modify fun _ hw => hw
  note n hNote := .modify fun w hw => hL w.log n hw hNote
  add _ _ _ _ _ hw _ _ _ _ := hw
  del _ _ _ _ _ hw _ _ _ := hw

theorem keeps_check (quests : Quests) (x : CharId) : Keeps (OfLog L) (check cfg quests x) :=
  (aside_ofLog hL cfg).questCheck quests x

theorem keeps_walk (quests : Quests) (tile : Tile) : Keeps (OfLog L) (walk cfg quests c tile) := by
  cases tile with
  | blocked => exact .ret
  | free => exact keeps_check hL _ _
  | deadly =>
      apply (keeps_check hL _ _).bind
      intro _
      exact indifferent_ofLog.deathRespawn (fun quests => keeps_check hL quests c) _
  | warp map => exact (aside_ofLog hL cfg).warp (keeps_check hL) _ map

/-- The swap itself, if it may be noted. -/
theorem ofLog_tradeSwap {b : Book} (hLog : L b.log) (hPartner : (b.deals c).tradePartner = some p)
    (hSwapped : L (.swapped c p :: b.log)) (quests : Quests) :
    Triple (HasBook b) (tradeSwap cfg quests c) (fun _ => OfLog L) (fun _ => OfLog L) := by
  apply Triple.pin
  intro w hw
  obtain rfl : book w = b := hw
  apply Triple.weaken (P := HasBook (book w)) (by rintro s rfl; rfl)
  apply Triple.bind (Q := fun a s => a = p ∧ HasBook (book w) s)
  · apply Triple.read
    intro s hs
    have hFirst : (s.characters c).tradePartner = some p :=
      (congrArg (fun b : Book => (b.deals c).tradePartner) hs).trans hPartner
    have hSame : s.log = w.log := congrArg Book.log hs
    rw [hFirst]
    apply Triple.branch
    · exact fun _ => .ret fun t ht => ⟨rfl, ht ▸ hs⟩
    · intro _
      apply Triple.raise
      rintro t rfl
      unfold OfLog
      rw [hSame]
      exact hLog
  intro a
  apply Triple.cut (OfLog L)
  · apply Triple.modify
    rintro s ⟨rfl, hs⟩
    have hSame : s.log = w.log := congrArg Book.log hs
    change L (.swapped c a :: s.log)
    rw [hSame]
    exact hSwapped
  exact (aside_ofLog hL cfg).swapOffers quests a

/-- `Trade_Agree`, if the swap may be noted where it is near. -/
theorem ofLog_tradeAgree {b : Book} (h : Sound b) (hLog : L b.log) (quests : Quests) (agree : UInt8)
    (hSwapped : ∀ p, (b.deals c).trading → (b.deals c).tradePartner = some p → agree ≠ 0 →
      (b.deals c).tradeInventory ≠ [] → (b.deals p).tradeAgree →
        L (.swapped c p :: (b.answer c p true).log)) :
    Triple (HasBook b) (tradeAgree cfg quests c agree) (fun _ => OfLog L) (fun _ => OfLog L) := by
  have hAnswer : ∀ p agree w, HasBook (b.answer c p agree) w → OfLog L w := by
    intro p agree w hw
    have hSame : w.log = .agreed c p agree :: b.log := congrArg Book.log hw
    unfold OfLog
    rw [hSame]
    exact hL _ _ hLog (by simp)
  cases hTrading : (b.deals c).trading with
  | false =>
      apply (tradeAgree_free hTrading).strengthen
      intro _ w hw
      have hSame : w.log = b.log := congrArg Book.log hw
      unfold OfLog
      rw [hSame]
      exact hLog
  | true =>
      obtain ⟨p, hPartner⟩ := Option.isSome_iff_exists.mp (h.present c hTrading)
      have hOther := h.partner_other hPartner
      apply triple_tradeAgree hTrading hPartner hOther
      · exact hAnswer p _
      · exact fun _ => hAnswer p _
      · intro hYes hOffer hPartnerAgree
        obtain ⟨-, -, -, hPartner', -, -⟩ := answer_moves h hTrading hPartner hOther true
        exact ofLog_tradeSwap hL (hL _ _ hLog (by simp)) hPartner'
          (hSwapped p hTrading hPartner hYes hOffer hPartnerAgree) quests

/-- Only `Trade_Agree` comes to a swap. -/
theorem ofLog_handler (cfg : Config) {w : World} (h : Sound (book w)) (hLog : L w.log) (event : Event)
    (hSwapped : ∀ c agree quests p, event = .agree c agree quests → (w.characters c).trading →
      (w.characters c).tradePartner = some p → agree ≠ 0 → (w.characters c).tradeInventory ≠ [] →
        (w.characters p).tradeAgree → L (.swapped c p :: ((book w).answer c p true).log)) :
    Triple (HasBook (book w)) (event.handler cfg) (fun _ => OfLog L) (fun _ => OfLog L) := by
  have hKeeps : ∀ x : Prog Unit, Keeps (OfLog L) x →
      Triple (HasBook (book w)) x (fun _ => OfLog L) (fun _ => OfLog L) := by
    intro x hx
    apply Triple.weaken _ hx
    rintro s hs
    have hSame : s.log = w.log := congrArg Book.log hs
    unfold OfLog
    rw [hSame]
    exact hLog
  have hAside : Aside cfg (OfLog L) := aside_ofLog hL cfg
  cases event with
  | request c victim =>
      apply hKeeps
      apply Keeps.read
      intro w
      exact .branch .ret (.branch .ret (.branch .ret (.branch .ret
        (.branch keeps_modifyCharacter .ret))))
  | accept c victim =>
      apply hKeeps
      apply Keeps.read
      intro w
      exact .branch .ret (.branch .ret (.branch .ret (.branch (keeps_modifyCharacter.bind fun _ =>
        keeps_modifyCharacter.bind fun _ => hAside.note _ (by simp)) .ret)))
  | add c itemid amount quests => exact hKeeps _ (hAside.tradeAdd quests itemid amount)
  | remove c itemid quests => exact hKeeps _ (hAside.tradeRemove quests itemid)
  | agree c flag quests =>
      exact ofLog_tradeAgree hL h hLog quests flag fun p => hSwapped c flag quests p rfl
  | close c quests =>
      apply hKeeps
      apply Aside.getCharacter
      intro self
      exact .branch .ret (hAside.closeTrade (keeps_check hL) quests)
  | walk c direction time tile quests =>
      apply hKeeps
      exact keeps_walkCommon (fun _ _ => keeps_modifyCharacter) (hAside.leaveTrade (keeps_check hL) _)
        (keeps_walk hL _ tile) direction time
  | warp sender c map quests => exact hKeeps _ (hAside.warp (keeps_check hL) quests map)
  | login c saved quests =>
      apply hKeeps
      exact keeps_modifyCharacter.bind fun _ => keeps_check hL quests c
  | logout sender c quests =>
      apply hKeeps
      apply (hAside.leaveTrade (keeps_check hL) quests).bind
      exact fun _ => keeps_modifyCharacter

end Log

/-- So far, both sides of every swap had agreed to it. -/
def HonestLog (w : World) : Prop := Honest w.log

theorem robust_honest : Robust Honest :=
  fun _ _ hLog hNote => hLog.cons fun c p hSwap => (hNote c p hSwap).elim

theorem honest_handler (cfg : Config) {w : World} (h : Sound (book w)) (event : Event) :
    Triple (HasBook (book w)) (event.handler cfg) (fun _ => HonestLog) (fun _ => HonestLog) := by
  apply ofLog_handler robust_honest cfg h h.honest event
  intro c agree quests p _ hTrading hPartner _ _ hPartnerAgree
  obtain ⟨-, hSound, hTrading', hPartner', hAgree, hFlag⟩ :=
    answer_moves h hTrading hPartner (h.partner_other hPartner) true
  exact (hSound.swap hTrading' hPartner' hAgree (hFlag ▸ hPartnerAgree)).honest

/-- A handler that stops at an exception has made moves, if its client is closed. -/
theorem moves_handler (cfg : Config) {w : World} (h : Sound (book w)) {event : Event}
    (hEnabled : event.enabled w) :
    Triple (HasBook (book w)) (event.handler cfg) (fun _ => Reached (book w))
      (fun e s => e = .runtimeError → Moves (book w) (book (closeClient s event.sender))) := by
  have hOrderly : ∀ {x : Prog Unit},
      Triple (HasBook (book w)) x (fun _ => Reached (book w)) (Orderly (book w)) →
      Triple (HasBook (book w)) x (fun _ => Reached (book w))
        (fun e s => e = .runtimeError → Moves (book w) (book (closeClient s event.sender))) := by
    intro x hx
    apply hx.conseq (fun _ => id) (fun _ _ => id)
    rintro e s (⟨_, hReached⟩ | ⟨rfl, _⟩) hFault
    · cases event.sender with
      | none => exact .of_reflTransGen hReached
      | some c => exact hReached.closed
    · simp at hFault
  have hWild : ∀ {x : Prog Unit} {c : CharId}, event.sender = some c →
      Triple (HasBook (book w)) x (fun _ => Reached (book w)) (Wild (book w)) →
      Triple (HasBook (book w)) x (fun _ => Reached (book w))
        (fun e s => e = .runtimeError → Moves (book w) (book (closeClient s event.sender))) := by
    intro x c hSender hx
    apply hx.conseq (fun _ => id) (fun _ _ => id)
    intro e s hReached hFault
    rw [hSender]
    exact (hReached hFault).closed
  cases event with
  | request c victim => exact hOrderly (request_refines (of_decide_eq_true hEnabled))
  | accept c victim => exact hOrderly (accept_refines h (of_decide_eq_true hEnabled))
  | add c itemid amount quests => exact hWild rfl (add_wild h)
  | remove c itemid quests => exact hWild rfl (remove_wild h)
  | agree c flag quests => exact agree_wild h
  | close c quests => exact hOrderly (tradeClose_refines h quests)
  | walk c direction time tile quests => exact hOrderly (walk_refines h quests direction time tile)
  | warp sender c map quests => exact hOrderly (warp_refines h quests map)
  | login c saved quests =>
      have hAbsent : ((book w).deals c).presence = .absent := of_decide_eq_true hEnabled
      exact hOrderly (login_refines hAbsent quests saved)
  | logout sender c quests => exact hOrderly (logout_refines h quests)

/-- What holds of the server between two handlers. -/
def Kept (server : Server) : Prop :=
  HonestLog server.world ∧ ∀ w, server = .running w → Sound (book w)

theorem step_kept {server next : Server} {event : Event} (h : Kept server)
    (hStep : step cfg server event = some next) : Kept next := by
  cases server with
  | failed fault w => simp [step] at hStep
  | running w =>
      obtain ⟨hEnabled, hNext⟩ := Option.ite_none_right_eq_some.mp hStep
      obtain rfl := Option.some.inj hNext
      have hSound := h.2 w rfl
      have hRun := (moves_handler cfg hSound hEnabled).both (honest_handler cfg hSound event) w ⟨rfl, rfl⟩
      cases hResult : event.handler cfg w with
      | ok _ w' =>
          rw [hResult] at hRun
          refine ⟨hRun.2, ?_⟩
          rintro _ ⟨⟩
          exact hSound.moves hRun.1
      | error fault w' =>
          rw [hResult] at hRun
          have hFailed : Kept (.failed fault w') := ⟨hRun.2, by simp⟩
          cases fault with
          | nullPartner | gonePartner | danglingIterator => exact hFailed
          | runtimeError =>
              unfold finish
              dsimp only
              split
              · exact hFailed
              · have hSound' := hSound.allMoves (hRun.1 rfl)
                refine ⟨hSound'.honest, ?_⟩
                rintro _ ⟨⟩
                exact hSound'

theorem initial_sound {w : World} (h : Initial w) : Sound (book w) where
  online c hTrading := by simp [book, deal, h.2] at hTrading
  other c := by simp [book, deal, h.2]
  partner c p hTrading := by simp [book, deal, h.2] at hTrading
  present c hTrading := by simp [book, deal, h.2] at hTrading
  consented c p hTrading := by simp [book, deal, h.2] at hTrading
  honest := by
    change Honest w.log
    rw [h.1]
    exact honest_nil

/-- A small game: 100 items, one map. -/
def smallConfig : Config where
  eifSize := 100
  special _ := .normal
  mapExists map := map = 1
  jailMap := 0
  spawnMap _ := 1
  maxItem := 2000000000
  maxItem_isInt := isInt_maxItem
  maxTrade := 2000000000
  tradeAddQuantity := false
  enforceTimestamps := false
  deadly := true

/-- A character on the map, with fifty of the item that has its number. -/
def trader (c : CharId) : Character where
  presence := .playing
  mapid := 1
  nowhere := false
  nointeract := false
  sitting := false
  timestamp := -1
  npc := 0
  npcType := .npc
  inventory := [.of c 50]
  paperdoll := []
  goldbank := 0
  bank := []
  bankmax := 0
  partner := ""
  fiance := ""
  trading := false
  tradePartner := none
  tradeAgree := false
  tradeInventory := []

def traders : World := ⟨trader, []⟩

theorem initial_traders : Initial traders := ⟨rfl, fun _ => ⟨rfl, rfl, rfl, rfl⟩⟩

/-- The characters 1 and 2 trade ten items for twenty. -/
def smallTrade : List Event :=
  [.request 1 2, .accept 2 1, .add 1 1 10 .quiet, .add 2 2 20 .quiet, .agree 2 1 .quiet,
    .agree 1 1 .quiet]

end Etheos.Trade
