import Etheos.Trade.Effects

/-! The handlers refine the book of trades: whatever they do to it is a sequence
of moves. A swap that a quest check breaks off may in addition abandon one side. -/
namespace Etheos.Trade

open Characters General

variable {cfg : Config} {b : Book} {c p : CharId}

/-- Moves lead from the book to the one of the world. -/
def Reached (b : Book) (w : World) : Prop := Relation.ReflTransGen Move b (book w)

/-- How a handler that makes moves only may stop. -/
def Orderly (b : Book) (e : Fault) (w : World) : Prop :=
  e = .runtimeError ∧ Reached b w ∨ e = .gonePartner ∧ ¬Attended b

theorem reached_self {w : World} (hw : HasBook b w) : Reached b w := by
  rw [Reached, hw]

theorem orderly_thrown {b' : Book} (h : Relation.ReflTransGen Move b b') {e : Fault} {w : World}
    (hw : Thrown (HasBook b') e w) : Orderly b e w :=
  .inl ⟨hw.1, by rw [Reached, hw.2]; exact h⟩

theorem Sound.not_attended (h : Sound b) (hTrading : (b.deals c).trading)
    (hPartner : (b.deals c).tradePartner = some p) (hGone : (b.deals p).presence.online = false) :
    ¬Attended b := by
  intro hAttended
  have hOnline := h.online p (hAttended c p hTrading hPartner)
  simp [hGone] at hOnline

theorem Sound.partner_other (h : Sound b) (hPartner : (b.deals c).tradePartner = some p) : p ≠ c := by
  rintro rfl
  exact h.other p hPartner

theorem Sound.close_part (h : Sound b) (hTrading : (b.deals c).trading)
    (hPartner : (b.deals c).tradePartner = some p) :
    Relation.ReflTransGen Move b ((b.close c p).part c p) := by
  have hOther := h.partner_other hPartner
  have hBack := (h.partner c p hTrading hPartner).1
  apply Relation.ReflTransGen.tail (.single (.close hTrading hPartner))
  apply Move.part
  · simp [Book.close_deals b hOther]
  · simp [Book.close_deals b hOther, hOther]
  · simpa [Book.close_deals b hOther] using hPartner
  · simpa [Book.close_deals b hOther, hOther] using hBack

section

variable {victim : CharId} {Q : World → Prop} {E : Fault → World → Prop}
  (hSame : ∀ w, HasBook b w → Q w)

include hSame

/-- All that a request does. -/
theorem triple_tradeRequest
    (hAsk : (b.deals c).trading = false → victim ≠ c →
      ∀ w, HasBook (b.modify c ({ · with tradePartner := some victim })) w → Q w) :
    Triple (HasBook b) (tradeRequest cfg c victim) (fun _ => Q) E := by
  have hReturn : Triple (HasBook b) (return () : Prog Unit) (fun _ => Q) E := .ret hSame
  apply Triple.read
  rintro w rfl
  apply Triple.weaken (P := HasBook (book w)) (by rintro s rfl; rfl)
  apply Triple.branch (fun _ => hReturn)
  intro hFree
  apply Triple.branch (fun _ => hReturn)
  intro _
  apply Triple.branch (fun _ => hReturn)
  intro _
  apply Triple.branch (fun _ => hReturn)
  intro hOther
  apply Triple.branch _ (fun _ => hReturn)
  intro _
  apply (triple_modify ({ · with tradePartner := some victim }) (by intro _; rfl)).strengthen
  exact fun _ => hAsk (Bool.eq_false_iff.mpr hFree) hOther

/-- All that an acceptance does. -/
theorem triple_tradeAccept
    (hEnter : (b.deals c).trading = false → (b.deals victim).presence.online →
      (b.deals victim).trading = false → (b.deals victim).tradePartner = some c →
      ∀ w, HasBook (((b.modify c ({ · with
        tradePartner := some victim, trading := true, tradeAgree := false })).modify victim
          ({ · with trading := true, tradeAgree := false })).note (.opened c victim)) w → Q w) :
    Triple (HasBook b) (tradeAccept cfg c victim) (fun _ => Q) E := by
  have hReturn : Triple (HasBook b) (return () : Prog Unit) (fun _ => Q) E := .ret hSame
  apply Triple.read
  rintro w rfl
  apply Triple.weaken (P := HasBook (book w)) (by rintro s rfl; rfl)
  apply Triple.branch (fun _ => hReturn)
  intro hFree
  apply Triple.branch (fun _ => hReturn)
  intro _
  apply Triple.branch (fun _ => hReturn)
  intro _
  apply Triple.branch _ (fun _ => hReturn)
  intro ⟨hOnMap, _, hAsked, hVictimFree, _⟩
  have hOnline : ((book w).deals victim).presence.online = true := by
    simp only [onMap, Bool.decide_and, Bool.and_eq_true, decide_eq_true_eq] at hOnMap
    exact hOnMap.1
  apply Triple.seq (triple_modify
    ({ · with tradePartner := some victim, trading := true, tradeAgree := false })
    (by intro _; rfl))
  apply Triple.seq (triple_modify ({ · with trading := true, tradeAgree := false })
    (by intro _; rfl))
  apply triple_note.strengthen
  exact fun _ => hEnter (Bool.eq_false_iff.mpr hFree) hOnline (Bool.eq_false_iff.mpr hVictimFree) hAsked

end

theorem request_refines {victim : CharId} (hPlaying : (b.deals c).presence = .playing) :
    Triple (HasBook b) (tradeRequest cfg c victim) (fun _ => Reached b) (Orderly b) := by
  apply triple_tradeRequest fun _ => reached_self
  intro hFree hOther w hw
  rw [Reached, hw]
  exact .single (.ask hPlaying hFree hOther)

theorem accept_refines {victim : CharId} (h : Sound b)
    (hPlaying : (b.deals c).presence = .playing) :
    Triple (HasBook b) (tradeAccept cfg c victim) (fun _ => Reached b) (Orderly b) := by
  apply triple_tradeAccept fun _ => reached_self
  intro hFree hOnline hVictimFree hAsked w hw
  have hOther : victim ≠ c := by
    rintro rfl
    exact h.other victim hAsked
  rw [Reached, hw]
  exact .single (.enter hPlaying hOnline hFree hVictimFree hAsked hOther)

theorem Sound.orderly_close (_ : Sound b) (hTrading : (b.deals c).trading)
    (hPartner : (b.deals c).tradePartner = some p) {w : World} (hw : HasBook (b.close c p) w) :
    Orderly b .runtimeError w :=
  orderly_thrown (.single (.close hTrading hPartner)) ⟨rfl, hw⟩

/-- The book is as it should be, and the character is in no trade. -/
def FreeIn (P : Book → Prop) (c : CharId) (w : World) : Prop :=
  P (book w) ∧ ((book w).deals c).trading = false

/-- What leaves all trades alone while the character is in none. -/
theorem triple_freeIn {P : Book → Prop} {x : Prog Unit}
    (h : ∀ b' : Book, (b'.deals c).trading = false →
      Triple (HasBook b') x (fun _ => HasBook b') (Thrown (HasBook b'))) :
    Triple (FreeIn P c) x (fun _ => FreeIn P c) (Thrown fun w => P (book w)) := by
  apply Triple.pin
  intro w ⟨hBook, hFree⟩
  apply (h (book w) hFree).conseq (by rintro s rfl; rfl)
  · intro _ s hs
    exact ⟨by rwa [hs], by rwa [hs]⟩
  · intro e s ⟨hFault, hs⟩
    exact ⟨hFault, by change P (book s); rwa [hs]⟩

section

variable {P : Book → Prop} {E : Fault → World → Prop} {quests : Quests} {w : World}

theorem triple_leaving (hFree : (b.deals c).trading = false → P b)
    (hClose : (b.deals c).trading →
      Triple (HasBook b) (closeTrade (check cfg) quests c) (fun _ => FreeIn P c) E) :
    Triple (HasBook b) (leaveTrade (check cfg) quests c) (fun _ => FreeIn P c) E := by
  cases hTrading : (b.deals c).trading with
  | false =>
      apply (leaveTrade_free hTrading).strengthen
      intro _ w hw
      exact ⟨by rw [hw]; exact hFree hTrading, by rw [hw]; exact hTrading⟩
  | true =>
      apply triple_getDeal
      intro self hSelf
      have hSelf' : self.trading = true := (congrArg Deal.trading hSelf).trans hTrading
      simp only [hSelf']
      exact hClose hTrading

theorem triple_tradeClose (hFree : (b.deals c).trading = false → P b)
    (hClose : (b.deals c).trading →
      Triple (HasBook b) (closeTrade (check cfg) quests c) (fun _ => FreeIn P c) E) :
    Triple (HasBook b) (tradeClose cfg quests c) (fun _ w => P (book w)) E := by
  apply triple_getDeal
  intro self hSelf
  have hTrading : self.trading = (b.deals c).trading := congrArg Deal.trading hSelf
  apply Triple.branch
  · intro hNot
    apply Triple.ret
    intro w hw
    rw [hw]
    exact hFree (by simpa [hTrading] using hNot)
  · intro hBusy
    apply (hClose (by simpa [hTrading] using hBusy)).strengthen
    exact fun _ _ hw => hw.1

variable (hThrown : ∀ e s, Thrown (fun s => P (book s)) e s → E e s)

include hThrown

theorem triple_free {x : Prog Unit} (h : ∀ b' : Book, (b'.deals c).trading = false →
    Triple (HasBook b') x (fun _ => HasBook b') (Thrown (HasBook b'))) :
    Triple (FreeIn P c) x (fun _ => FreeIn P c) E :=
  (triple_freeIn h).conseq (fun _ hw => hw) (fun _ _ hw => hw) hThrown

/-- A warp to a map that exists leaves the trade. -/
theorem triple_warp {map : Int} (hSame : cfg.mapExists map = false → P b)
    (hLeave : cfg.mapExists map → Triple (HasBook b) (leaveTrade (check cfg) (quests.sub 0) c)
      (fun _ => FreeIn P c) E) :
    Triple (HasBook b) (warp cfg (check cfg) quests c map) (fun _ w => P (book w)) E := by
  apply Triple.branch
  · intro hMap
    apply Triple.seq (triple_other (by intro _; rfl))
    apply Triple.seq (hLeave hMap)
    apply Triple.seq (triple_free hThrown fun b' _ => triple_other (by intro _; rfl))
    apply (triple_free hThrown fun b' hFree => check_free hFree _ _).strengthen
    exact fun _ _ hw => hw.1
  · intro hMap
    apply Triple.ret
    intro w hw
    rw [hw]
    exact hSame (by simpa using hMap)

end

/-- Moves have led here, and the character is in no trade. -/
def FreeReached (b : Book) (c : CharId) (w : World) : Prop :=
  Reached b w ∧ ((book w).deals c).trading = false

theorem closeTrade_refines (h : Sound b) (hTrading : (b.deals c).trading) (quests : Quests) :
    Triple (HasBook b) (closeTrade (check cfg) quests c) (fun _ => FreeReached b c) (Orderly b) := by
  obtain ⟨p, hPartner⟩ := Option.isSome_iff_exists.mp (h.present c hTrading)
  have hOther := h.partner_other hPartner
  apply (triple_closeTrade hPartner hOther (fun w hw => h.orderly_close hTrading hPartner hw)
    (fun hGone w => .inr ⟨rfl, h.not_attended hTrading hPartner hGone⟩)).strengthen
  intro _ w hw
  exact ⟨by rw [Reached, hw]; exact h.close_part hTrading hPartner,
    by rw [hw]; exact part_free b hOther⟩

theorem leaveTrade_refines (h : Sound b) (quests : Quests) :
    Triple (HasBook b) (leaveTrade (check cfg) quests c) (fun _ => FreeReached b c) (Orderly b) :=
  triple_leaving (fun _ => .refl) fun hTrading => closeTrade_refines h hTrading quests

theorem tradeClose_refines (h : Sound b) (quests : Quests) :
    Triple (HasBook b) (tradeClose cfg quests c) (fun _ => Reached b) (Orderly b) :=
  triple_tradeClose (P := Relation.ReflTransGen Move b) (fun _ => .refl)
    fun hTrading => closeTrade_refines h hTrading quests

theorem warp_refines (h : Sound b) (quests : Quests) (map : Int) :
    Triple (HasBook b) (warp cfg (check cfg) quests c map) (fun _ => Reached b) (Orderly b) :=
  triple_warp (P := Relation.ReflTransGen Move b) (fun _ _ hw => .inl hw) (fun _ => .refl)
    fun _ => leaveTrade_refines h _

theorem walk_free (hFree : (b.deals c).trading = false) (quests : Quests) (tile : Tile) :
    Triple (HasBook b) (walk cfg quests c tile) (fun _ => HasBook b) (Thrown (HasBook b)) := by
  cases tile with
  | blocked => exact .ret fun _ hw => hw
  | free => exact check_free hFree _ quests
  | deadly => exact (check_free hFree _ _).seq (deathRespawn_free hFree _)
  | warp map => exact warp_free hFree _ quests map

/-- The walk is not refused: it comes in time, by someone who does not sit. -/
def Walks (cfg : Config) (w : World) (c : CharId) (direction : UInt8) (time : Int) : Prop :=
  ¬(cfg.enforceTimestamps ∧ timestampSub (time.tmod 8640000) (w.characters c).timestamp < 36) ∧
    (w.characters c).sitting = false ∧ direction ≤ 3

theorem triple_walkCommon {P : Book → Prop} {E : Fault → World → Prop}
    (hThrown : ∀ e s, Thrown (fun s => P (book s)) e s → E e s) {w : World} {quests : Quests}
    {direction : UInt8} {time : Int} (tile : Tile) (hSame : ¬Walks cfg w c direction time → P (book w))
    (hLeave : Walks cfg w c direction time → Triple (HasBook (book w))
      (leaveTrade (check cfg) (quests.sub 0) c) (fun _ => FreeIn P c) E) :
    Triple (· = w) (walkCommon cfg quests c direction time tile) (fun _ w => P (book w)) E := by
  have hReturn : ¬Walks cfg w c direction time →
      Triple (HasBook (book w)) (return () : Prog Unit) (fun _ w => P (book w)) E := by
    intro hNot
    apply Triple.ret
    intro s hs
    rw [hs]
    exact hSame hNot
  apply triple_getCharacter
  rintro _ rfl
  apply Triple.weaken (P := HasBook (book _)) (by rintro s rfl; rfl)
  apply Triple.branch
  · intro hSoon
    exact hReturn fun hWalks => hWalks.1 hSoon
  intro hTime
  apply Triple.seq (triple_other (by intro _; rfl))
  apply Triple.branch
  · intro hSitting
    exact hReturn fun hWalks => by simp [hWalks.2.1] at hSitting
  intro hStands
  apply Triple.branch
  · intro hDirection
    apply Triple.seq (triple_other (by intro _; rfl))
    apply Triple.seq (hLeave ⟨hTime, by simpa using hStands, hDirection⟩)
    apply (triple_free hThrown fun b' hFree => walk_free hFree _ tile).strengthen
    exact fun _ _ hw => hw.1
  · intro hDirection
    exact hReturn fun hWalks => hDirection hWalks.2.2

/-- What a walk keeps, if it does not look at where the character is. -/
theorem keeps_walkCommon {P : World → Prop} {quests : Quests} {tile : Tile}
    (hOther : ∀ f : Character → Character, (∀ self, deal (f self) = deal self) →
      Keeps P (modifyCharacter c f))
    (hLeave : Keeps P (leaveTrade (check cfg) (quests.sub 0) c))
    (hWalk : Keeps P (walk cfg (quests.sub 1) c tile)) (direction : UInt8) (time : Int) :
    Keeps P (walkCommon cfg quests c direction time tile) := by
  apply Aside.getCharacter
  intro self
  apply Keeps.branch .ret
  apply (hOther _ (by intro _; rfl)).bind
  intro _
  apply Keeps.branch .ret
  apply Keeps.branch _ .ret
  apply (hOther _ (by intro _; rfl)).bind
  intro _
  exact hLeave.bind fun _ => hWalk

theorem walk_refines (h : Sound b) (quests : Quests) (direction : UInt8) (time : Int) (tile : Tile) :
    Triple (HasBook b) (walkCommon cfg quests c direction time tile) (fun _ => Reached b)
      (Orderly b) := by
  apply Triple.pin
  rintro w rfl
  exact triple_walkCommon (P := Relation.ReflTransGen Move (book w)) (fun _ _ hw => .inl hw) tile
    (fun _ => .refl) fun _ => leaveTrade_refines h _

theorem triple_characterLogout {P : Book → Prop} {E : Fault → World → Prop} {quests : Quests}
    (hGone : ∀ b' : Book, P b' → (b'.deals c).trading = false →
      P (b'.modify c ({ · with presence := .gone })))
    (hLeave : Triple (HasBook b) (leaveTrade (check cfg) quests c) (fun _ => FreeIn P c) E) :
    Triple (HasBook b) (characterLogout cfg quests c) (fun _ w => P (book w)) E := by
  apply Triple.seq hLeave
  apply triple_modifyCharacter
  intro w ⟨hBook, hFree⟩
  rw [book_modifyCharacter ({ · with presence := .gone }) (by intro _; rfl)]
  exact hGone _ hBook hFree

theorem logout_refines (h : Sound b) (quests : Quests) :
    Triple (HasBook b) (characterLogout cfg quests c) (fun _ => Reached b) (Orderly b) :=
  triple_characterLogout (P := Relation.ReflTransGen Move b)
    (fun _ hReached hFree => hReached.tail (.leave hFree)) (leaveTrade_refines h quests)

theorem triple_worldLogin {Q : World → Prop} {E : Fault → World → Prop} {quests : Quests}
    (saved : Character)
    (hJoin : ∀ w, HasBook (b.modify c fun _ => ⟨.playing, false, none, false, []⟩) w → Q w)
    (hThrown : ∀ e w, Thrown Q e w → E e w) :
    Triple (HasBook b) (worldLogin cfg quests c saved) (fun _ => Q) E := by
  apply Triple.seq (triple_modify (fun _ => ⟨.playing, false, none, false, []⟩) (by intro _; rfl))
  apply (check_free (by simp) _ quests).conseq (fun _ => id) (fun _ => hJoin)
  exact fun e w hw => hThrown e w ⟨hw.1, hJoin w hw.2⟩

theorem login_refines (hAbsent : (b.deals c).presence = .absent) (quests : Quests)
    (saved : Character) :
    Triple (HasBook b) (worldLogin cfg quests c saved) (fun _ => Reached b) (Orderly b) := by
  apply triple_worldLogin saved _ fun _ _ hw => .inl hw
  intro w hw
  rw [Reached, hw]
  exact .single (.join hAbsent)

end Etheos.Trade
