import Etheos.Trade.Consent

/-! The two sides of a trade point at each other, and no null partner is
followed, as long as no quest check moves or stops a character in the middle
of a change of its trade. -/
namespace Etheos.Trade

open Characters General

variable {cfg : Config}

/-- The trades of a running server are paired, and no server has failed because
of a null partner. -/
def Pairing : Server → Prop
  | .running w => Paired (book w)
  | .failed fault _ => fault ≠ .nullPartner

/-- Quest actions that come at the wrong moment: a warp out of a trade that is
being changed, or the end of a swap that is broken off. -/
def Unpairs (cfg : Config) : Server → Event → Prop
  | .running w, .add c _ _ quests | .running w, .remove c _ quests =>
      (w.characters c).trading ∧ ¬quests.All (Stays cfg)
  | .running w, .agree c agree quests => SwapNear (book w) c agree ∧ ¬CalmSwap cfg quests
  | _, _ => False

theorem calm_handler {w : World} (h : Sound (book w)) {event : Event} (hEnabled : event.enabled w)
    (hCalm : ¬Unpairs cfg (.running w) event) :
    Triple (HasBook (book w)) (event.handler cfg) (fun _ => Reached (book w))
      (Orderly (book w)) := by
  cases event with
  | request c victim => exact request_refines (of_decide_eq_true hEnabled)
  | accept c victim => exact accept_refines h (of_decide_eq_true hEnabled)
  | add c itemid amount quests =>
      apply add_calm h
      intro hTrading
      by_contra hMoves
      exact hCalm ⟨hTrading, hMoves⟩
  | remove c itemid quests =>
      apply remove_calm h
      intro hTrading
      by_contra hMoves
      exact hCalm ⟨hTrading, hMoves⟩
  | agree c flag quests =>
      apply agree_calm h
      intro hNear
      by_contra hWild
      exact hCalm ⟨hNear, hWild⟩
  | close c quests => exact tradeClose_refines h quests
  | walk c direction time tile quests => exact walk_refines h quests direction time tile
  | warp sender c map quests => exact warp_refines h quests map
  | login c saved quests =>
      have hAbsent : ((book w).deals c).presence = .absent := of_decide_eq_true hEnabled
      exact login_refines hAbsent quests saved
  | logout sender c quests => exact logout_refines h quests

/-- What holds of the server between two handlers, when the quests behave. -/
def Calm : Server → Prop
  | .running w => Sound (book w) ∧ Attended (book w)
  | .failed fault _ => fault ≠ .nullPartner

theorem calm_closeClient {w : World} (h : Sound (book w)) (hAttended : Attended (book w))
    (sender : Option CharId) : Calm (.running (closeClient w sender)) := by
  cases sender with
  | none => exact ⟨h, hAttended⟩
  | some c =>
      have hMove : Move (book w) (book (closeClient w (some c))) := by
        rw [book_closeClient]
        exact .disconnect
      exact ⟨hMove.sound h, hMove.attended h hAttended⟩

theorem step_calm {server next : Server} {event : Event} (h : Calm server)
    (hCalm : ¬Unpairs cfg server event) (hStep : step cfg server event = some next) : Calm next := by
  cases server with
  | failed fault w => simp [step] at hStep
  | running w =>
      obtain ⟨hSound, hAttended⟩ := h
      obtain ⟨hEnabled, hNext⟩ := Option.ite_none_right_eq_some.mp hStep
      obtain rfl := Option.some.inj hNext
      have hRun := calm_handler hSound hEnabled hCalm w rfl
      cases hResult : event.handler cfg w with
      | ok _ w' =>
          rw [hResult] at hRun
          exact ⟨hSound.moves hRun, hAttended.moves hSound hRun⟩
      | error fault w' =>
          rw [hResult] at hRun
          rcases hRun with ⟨rfl, hReached⟩ | ⟨_, hNot⟩
          · unfold finish
            dsimp only
            split
            · simp [Calm]
            · exact calm_closeClient (hSound.moves hReached) (hAttended.moves hSound hReached) _
          · exact (hNot hAttended).elim

theorem Calm.pairing {server : Server} (h : Calm server) : Pairing server := by
  cases server with
  | running w => exact h.1.paired h.2
  | failed fault w => exact h

theorem initial_calm {w : World} (h : Initial w) : Calm (.running w) := by
  refine ⟨initial_sound h, ?_⟩
  intro c p hTrading
  simp [book, deal, h.2] at hTrading

/-- In a run without such quest actions, all trades are paired in every state. -/
theorem paired_of_avoids (cfg : Config) {w : World} (h : Initial w) {events : List Event}
    (hAvoids : Avoids (step cfg) (Unpairs cfg) (.running w) events) :
    Always (step cfg) Pairing (.running w) events := by
  exact (always_of_avoids (fun _ _ _ => step_calm) (initial_calm h) hAvoids).mono
    fun _ => Calm.pairing

theorem quiet_all (allowed : QuestAction → Prop) : Quests.quiet.All allowed := by
  intro path action hAction
  simp [Quests.quiet] at hAction

theorem calmSwap_quiet (cfg : Config) : CalmSwap cfg .quiet where
  first := (quiet_all _).sub 0
  second := (quiet_all _).sub 1
  self := trivial
  partner := trivial
  partnerStays := (quiet_all _).sub 3

theorem paired_of_avoids_smallTrade :
    Always (step smallConfig) Pairing (.running traders) smallTrade := by
  apply paired_of_avoids smallConfig initial_traders
  apply avoids_of_forall
  intro event hEvent server
  simp only [smallTrade, List.mem_cons, List.not_mem_nil, or_false] at hEvent
  rcases hEvent with rfl | rfl | rfl | rfl | rfl | rfl <;> cases server <;>
    simp [Unpairs, quiet_all, calmSwap_quiet]

/-- The quest rules of 1 move it when it puts an item up for trade. -/
def warpedOffer : List Event :=
  [.request 1 2, .accept 2 1, .add 1 1 10 (.only [] [.warp 1])]

theorem not_paired_warpedOffer :
    ¬Always (step smallConfig) Pairing (.running traders) warpedOffer := by
  intro hAlways
  obtain ⟨w, hRun⟩ : ∃ w, run (step smallConfig) (.running traders) warpedOffer =
      some (.failed .nullPartner w) := ⟨_, rfl⟩
  exact hAlways warpedOffer _ List.prefix_rfl hRun rfl

end Etheos.Trade
