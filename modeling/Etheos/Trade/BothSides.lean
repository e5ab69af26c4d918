import Etheos.Trade.Consent

/-! Swaps in which one side gives nothing. The offer of a side is looked at when that
side agrees last, and not when it agrees first. -/
namespace Etheos.Trade

open Characters CharacterItem General

variable {cfg : Config} {c p : CharId}

/-- A character that trades and has agreed offers something. -/
def Backs (self : Character) : Prop :=
  self.trading → self.tradeAgree → self.tradeInventory ≠ []

/-- All agreements are backed, except perhaps that of one character. -/
def BackedBut (c : CharId) (w : World) : Prop := ∀ x, x ≠ c → Backs (w.characters x)

def Backed (w : World) : Prop := ∀ x, Backs (w.characters x)

/-- What a handler leaves when a quest check stops it. -/
def Spared (e : Fault) (w : World) : Prop := e = .runtimeError → Backed w

theorem spared_of_ne {P : World → Prop} (e : Fault) (w : World) (_ : P w) (h : e ≠ .runtimeError) :
    Spared e w :=
  fun hFault => (h hFault).elim

theorem spared_of_keeps {α : Type} {x : Prog α} (h : Keeps Backed x) :
    Triple Backed x (fun _ => Backed) Spared :=
  h.conseq (fun _ hw => hw) (fun _ _ hw => hw) fun _ _ hw _ => hw

theorem Backed.but {w : World} (h : Backed w) (c : CharId) : BackedBut c w := fun x _ => h x

/-- The character itself is set right. -/
theorem BackedBut.modify {w : World} (h : BackedBut c w) {f : Character → Character}
    (hf : Backs (f (w.characters c))) : Backed (w.modifyCharacter c f) := by
  intro x
  obtain rfl | hx := eq_or_ne x c
  · rw [World.modifyCharacter_self]
    exact hf
  · rw [World.modifyCharacter_other _ _ hx]
    exact h x hx

theorem BackedBut.other {w : World} (h : BackedBut c w) {y : CharId} {f : Character → Character}
    (hf : ∀ self, Backs self → Backs (f self)) : BackedBut c (w.modifyCharacter y f) := by
  intro x hx
  obtain rfl | hy := eq_or_ne x y
  · rw [World.modifyCharacter_self]
    exact hf _ (h x hx)
  · rw [World.modifyCharacter_other _ _ hy]
    exact h x hx

theorem keeps_backed {f : Character → Character} (hf : ∀ self, Backs self → Backs (f self)) :
    Keeps Backed (modifyCharacter c f) :=
  Keeps.modify fun _ hw => (hw.but c).modify (hf _ (hw c))

theorem keeps_note (n : Note) : Keeps Backed (note n) := Keeps.modify fun _ hw => hw

/-- Only the deal of a character matters. -/
theorem backs_of_deal {self other : Character} (hDeal : deal other = deal self) (h : Backs self) :
    Backs other := by
  unfold Backs at h ⊢
  have hTrading : other.trading = self.trading := congrArg Deal.trading hDeal
  have hAgree : other.tradeAgree = self.tradeAgree := congrArg Deal.tradeAgree hDeal
  have hOffer : other.tradeInventory = self.tradeInventory := congrArg Deal.tradeInventory hDeal
  rwa [hTrading, hAgree, hOffer]

theorem Backed.same {w : World} (h : Backed w) {f : Character → Character}
    (hDeal : ∀ self, deal (f self) = deal self) : Backed (w.modifyCharacter c f) :=
  (h.but c).modify (backs_of_deal (hDeal _) (h c))

theorem BackedBut.same {w : World} (h : BackedBut c w) {x : CharId} {f : Character → Character}
    (hDeal : ∀ self, deal (f self) = deal self) : BackedBut c (w.modifyCharacter x f) :=
  h.other fun _ hSelf => backs_of_deal (hDeal _) hSelf

theorem indifferent_backed : Indifferent cfg c Backed := fun _ _ hDeal _ hw => hw.same hDeal

section Checks

variable {P : World → Prop} {E : Fault → World → Prop} (hBut : ∀ w, P w → BackedBut c w)
  (hThrow : ∀ e w, P w → e ≠ .runtimeError → E e w) (hAfter : ∀ e w, Backed w → E e w)

include hThrow in
/-- No quest check is run in following the pointer. -/
theorem tradePartner_backed : Triple P (tradePartner c) (fun _ => P) E := by
  apply Triple.read
  intro w hw
  split
  · exact .raise fun s hs => hThrow _ s (hs ▸ hw) (by simp)
  · apply Triple.branch
    · intro _
      exact .ret fun s hs => hs ▸ hw
    · intro _
      exact .raise fun s hs => hThrow _ s (hs ▸ hw) (by simp)

section Teardown

variable {check : Check} (hCheck : ∀ quests x, Keeps Backed (check quests x))

include hBut hThrow hAfter hCheck

/-- Once the one side is out of its trade, all that follows is as it should be. -/
theorem closeTrade_backed (quests : Quests) :
    Triple P (closeTrade check quests c) (fun _ => Backed) E := by
  have hRest : ∀ {x : Prog Unit}, Keeps Backed x → Triple Backed x (fun _ => Backed) E :=
    fun h => h.conseq (fun _ hw => hw) (fun _ _ hw => hw) hAfter
  apply (tradePartner_backed hThrow).bind
  intro p
  apply Triple.cut Backed
  · exact triple_modifyCharacter fun w hw => (hBut w hw).modify (by simp [Backs])
  apply hRest
  apply (keeps_backed (by simp [Backs])).bind
  intro _
  apply (keeps_backed (by simp [Backs])).bind
  intro _
  apply (keeps_note _).bind
  intro _
  apply (hCheck _ _).bind
  intro _
  apply Aside.tradePartner.bind
  intro _
  apply (hCheck _ _).bind
  intro _
  apply Aside.tradePartner.bind
  intro _
  exact (keeps_backed (by intro _ h; exact h)).bind fun _ => keeps_backed (by intro _ h; exact h)

theorem leaveTrade_backed (quests : Quests) :
    Triple P (leaveTrade check quests c) (fun _ => Backed) E := by
  apply triple_getCharacter
  intro w hw
  apply Triple.branch
  · intro _
    apply (closeTrade_backed hBut hThrow hAfter hCheck quests).weaken
    rintro s rfl
    exact hw
  · intro hFree
    apply Triple.ret
    rintro s rfl x
    obtain rfl | hx := eq_or_ne x c
    · exact fun hTrading => absurd hTrading hFree
    · exact hBut s hw x hx

theorem warp_backed (hBack : ∀ w, Backed w → P w) (hMove : ∀ w, P w → ∀ f : Character → Character,
      (∀ self, deal (f self) = deal self) → P (w.modifyCharacter c f)) (quests : Quests) (map : Int) :
    Triple P (warp cfg check quests c map) (fun _ => P) E := by
  apply Triple.branch
  · intro _
    apply Triple.cut P
    · exact triple_modifyCharacter fun w hw => hMove w hw _ (by intro _; rfl)
    apply Triple.seq (leaveTrade_backed hBut hThrow hAfter hCheck _)
    apply Triple.cut Backed
    · exact triple_modifyCharacter fun w hw => (hw.but c).modify (hw c)
    · exact (hCheck _ _).conseq (fun _ hw => hw) (fun _ => hBack) hAfter
  · intro _
    exact .ret fun _ hw => hw

end Teardown

theorem actions_backed (cfg : Config) (depth : Nat)
    (hCheck : ∀ quests x, Keeps Backed (checkQuestRules cfg depth quests x)) (x : CharId) :
    ActionInvariant cfg (checkQuestRules cfg depth) x (fun _ => True) Backed (fun _ => Backed) := by
  exact {
    throws := fun _ hw => hw
    gives := fun _ _ _ _ hw _ _ _ _ => hw.same (by intro _; rfl)
    removes := fun _ _ _ _ hw _ _ _ => hw.same (by intro _; rfl)
    checks := fun quests _ => hCheck quests x
    warps := fun quests map _ _ => warp_backed (fun w hw => hw.but x) (fun _ _ hw _ => hw) (fun _ _ hw => hw)
      hCheck (fun _ hw => hw) (fun _ hw _ hDeal => hw.same hDeal) quests map }

/-- The checks keep all agreements backed. -/
theorem check_backed (quests : Quests) (x : CharId) : Keeps Backed (check cfg quests x) :=
  keeps_checkQuestRules (actions_backed cfg) maxRecursion quests x

/-- A quiet check of the character that has taken back its offer stops only after
the character has left the trade. -/
theorem check_but {depth : Nat} {quests : Quests} (hQuiet : quests.Quiet depth) :
    Triple (BackedBut c) (checkQuestRules cfg depth quests c) (fun _ => BackedBut c) Spared := by
  have hLater : ∀ e w, Backed w → Spared e w := fun _ _ hw _ => hw
  induction depth generalizing quests with
  | zero =>
      apply Triple.branch
      · intro _
        exact .ret fun _ hw => hw
      · intro hSome
        exact (hSome hQuiet).elim
  | succ depth ih =>
      have hActions : ∀ actions (quests : Quests), Quests.Quiet.go (Quests.Quiet depth) quests actions →
          Triple (BackedBut c) (runActions cfg (checkQuestRules cfg depth) quests c actions)
            (fun _ => BackedBut c) Spared := by
        intro actions
        induction actions with
        | nil => exact fun _ _ => .ret fun _ hw => hw
        | cons action actions ihActions =>
            intro quests hQuiet
            cases action with
            | fail => exact hQuiet.elim
            | calculateStats => exact (ih hQuiet.1).seq (ihActions _ hQuiet.2)
            | giveItem item amount =>
                apply Triple.seq (triple_discard _) (ihActions _ hQuiet.2)
                exact triple_addItem (fun _ _ hw _ _ _ => hw.same (by intro _; rfl)) (ih hQuiet.1)
            | removeItem item amount =>
                apply Triple.seq (triple_discard _) (ihActions _ hQuiet.2)
                exact triple_delItem (fun _ _ hw _ _ => hw.same (by intro _; rfl)) (ih hQuiet.1)
            | warp map =>
                apply Triple.seq _ (ihActions _ hQuiet.2)
                exact warp_backed (fun _ hw => hw) spared_of_ne hLater
                  (keeps_checkQuestRules (actions_backed cfg) depth)
                  (fun _ hw => hw.but c) (fun _ hw _ hDeal => hw.same hDeal) _ map
      exact hActions quests.actions quests hQuiet

end Checks

section Handlers

theorem offerChanged_backed : Keeps Backed (offerChanged c) := by
  apply Aside.tradePartner.bind
  intro p
  apply (keeps_note _).bind
  intro _
  apply (keeps_backed (by simp [Backs])).bind
  intro _
  exact Aside.tradePartner.bind fun _ => keeps_backed (by simp [Backs])

/-- Something is offered after `Trade_Add`. -/
theorem tradeAdd_backed (quests : Quests) (itemid amount : Int) :
    Keeps Backed (tradeAdd cfg quests c itemid amount) := by
  apply Aside.getCharacter
  intro self
  apply Keeps.branch .ret
  apply Keeps.branch .ret
  apply Keeps.branch .ret
  apply Keeps.bind
  · apply Keeps.branch .ret
    apply Aside.getCharacter
    intro self
    apply Keeps.branch .ret
    apply Keeps.branch .ret
    apply Triple.branch
    · intro hOffered
      apply Keeps.bind _ fun _ => .ret
      refine keeps_backed fun _ _ _ _ hNone => ?_
      have hLength := congrArg List.length hNone
      cases hItems : self.tradeInventory with
      | nil => simp [hItems] at hOffered
      | cons first rest =>
          rw [hItems] at hLength
          unfold CharacterItem.change at hLength
          split at hLength <;> simp at hLength
    · intro _
      apply Keeps.bind _ fun _ => (check_backed _ _).bind fun _ => .ret
      exact keeps_backed (by simp [Backs])
  · exact fun _ => .branch offerChanged_backed .ret

theorem swapOffer_backed {owner : CharId} {giver taker : Prog CharId} (hGiver : Keeps Backed giver)
    (hTaker : Keeps Backed taker) (quests : Quests) (items : List CharacterItem) :
    Keeps Backed (swapOffer cfg owner giver taker quests items) := by
  induction items generalizing quests with
  | nil => exact .ret
  | cons item items ih =>
      apply hGiver.bind
      intro x
      apply Triple.seq (triple_discard (triple_delItem (fun _ _ hw _ _ => hw.same (by intro _; rfl))
        (check_backed _ _)))
      apply hTaker.bind
      intro y
      apply Triple.seq (triple_discard (triple_addItem (fun _ _ hw _ _ _ => hw.same (by intro _; rfl))
        (check_backed _ _)))
      apply Aside.getCharacter
      exact fun _ => .branch .raise (ih _)

theorem swapEnd_backed (quests : Quests) : Keeps Backed (swapEnd cfg quests c) := by
  apply Aside.tradePartner.bind
  intro p
  apply (keeps_backed (by simp [Backs])).bind
  intro _
  apply (keeps_note _).bind
  intro _
  apply (check_backed _ _).bind
  intro _
  apply Aside.tradePartner.bind
  intro _
  apply (check_backed _ _).bind
  intro _
  apply Aside.tradePartner.bind
  intro _
  apply (keeps_backed (by simp [Backs])).bind
  intro _
  apply (keeps_backed (by simp [Backs])).bind
  intro _
  apply Aside.tradePartner.bind
  intro _
  exact (keeps_backed (by intro _ h; exact h)).bind fun _ => keeps_backed (by intro _ h; exact h)

theorem tradeSwap_backed (quests : Quests) : Keeps Backed (tradeSwap cfg quests c) := by
  apply Aside.tradePartner.bind
  intro p
  apply (keeps_note _).bind
  intro _
  apply Aside.getCharacter
  intro partner
  apply (swapOffer_backed Aside.tradePartner .ret _ _).bind
  intro _
  apply Aside.getCharacter
  intro self
  exact (swapOffer_backed .ret Aside.tradePartner _ _).bind fun _ => swapEnd_backed quests

/-- Who agrees offers something, or takes back a consent. -/
theorem tradeAgree_backed {w : World} (h : Backed w) {agree : UInt8}
    (hOffer : (w.characters c).trading → agree ≠ 0 → (w.characters c).tradeInventory ≠ [])
    (quests : Quests) : Triple (· = w) (tradeAgree cfg quests c agree) (fun _ => Backed) (fun _ => Backed) := by
  apply Triple.read
  rintro w rfl
  apply Triple.branch
  · intro _
    exact .ret fun _ hs => hs ▸ h
  intro hTrading
  apply Triple.cut Backed
  · apply triple_modifyCharacter
    rintro s rfl
    refine (h.but c).modify fun _ hAgree => ?_
    exact hOffer (Decidable.not_not.mp hTrading) (of_decide_eq_true hAgree)
  apply (keeps_note _).bind
  intro _
  apply Keeps.branch
  · apply Keeps.branch .ret
    apply Aside.tradePartner.bind
    intro p
    apply Aside.getCharacter
    exact fun _ => .branch (tradeSwap_backed quests) .ret
  · exact Aside.tradePartner.bind fun _ => .ret

theorem offerChanged_but : Triple (BackedBut c) (offerChanged c) (fun _ => Backed) Spared := by
  apply (tradePartner_backed spared_of_ne).bind
  intro p
  apply Triple.cut (BackedBut c)
  · exact Triple.modify fun _ hw => hw
  apply Triple.cut Backed
  · exact triple_modifyCharacter fun _ hw => hw.modify (by simp [Backs])
  apply (tradePartner_backed spared_of_ne).bind
  intro _
  exact triple_modifyCharacter fun _ hw => (hw.but _).modify (by simp [Backs])

/-- The last item of an offer that is agreed to is taken back, and the quest check
does not stop before the flag is. -/
theorem tradeRemove_backed {w : World} (h : Backed w) {itemid : Int} {quests : Quests}
    (hQuiet : (w.characters c).trading → (w.characters c).tradeAgree →
      erase (toShort itemid) (w.characters c).tradeInventory = some [] → quests.Quiet maxRecursion) :
    Triple (· = w) (tradeRemove cfg quests c itemid) (fun _ => Backed) Spared := by
  apply triple_getCharacter
  rintro w rfl
  apply Triple.branch (fun _ => .ret fun _ hs => hs ▸ h)
  intro _
  apply Triple.branch (fun _ => .ret fun _ hs => hs ▸ h)
  intro _
  apply Triple.bind (Q := fun removed s => if removed then BackedBut c s else Backed s)
  · apply triple_getCharacter
    rintro w rfl
    cases hErase : erase (toShort itemid) (w.characters c).tradeInventory with
    | none => exact .ret fun _ hs => hs ▸ h
    | some items =>
        by_cases hBare : (w.characters c).trading ∧ (w.characters c).tradeAgree ∧ items = []
        · obtain ⟨hTrading, hAgree, rfl⟩ := hBare
          apply Triple.cut (BackedBut c)
          · apply triple_modifyCharacter
            rintro s rfl x hx
            rw [World.modifyCharacter_other _ _ hx]
            exact h x
          · exact (check_but (hQuiet hTrading hAgree hErase)).seq (.ret fun _ hw => hw)
        · apply Triple.cut Backed
          · apply triple_modifyCharacter
            rintro s rfl
            refine (h.but c).modify fun hTrading hAgree hNone => hBare ⟨hTrading, hAgree, hNone⟩
          · exact (spared_of_keeps (check_backed quests c)).seq (.ret fun _ hw => hw.but c)
  · intro removed
    cases removed with
    | false => exact .ret fun _ hw => hw
    | true => exact offerChanged_but

theorem walk_backed (quests : Quests) (tile : Tile) : Keeps Backed (walk cfg quests c tile) := by
  cases tile with
  | blocked => exact .ret
  | free => exact check_backed _ _
  | deadly =>
      apply (check_backed _ _).bind
      exact fun _ => indifferent_backed.deathRespawn (fun quests => check_backed quests c) _
  | warp map =>
      exact warp_backed (fun _ hw => hw.but c) (fun _ _ hw _ => hw) (fun _ _ hw => hw) check_backed
        (fun _ hw => hw) (fun _ hw _ hDeal => hw.same hDeal) quests map

end Handlers

/-- A step after which an agreement may stand without an offer: someone agrees who
offers nothing, or takes everything back and is stopped before the flag is reset. -/
def Careless : Server → Event → Prop
  | .running w, .agree c agree _ =>
      (w.characters c).trading ∧ agree ≠ 0 ∧ (w.characters c).tradeInventory = []
  | .running w, .remove c itemid quests =>
      (w.characters c).trading ∧ (w.characters c).tradeAgree ∧
        erase (toShort itemid) (w.characters c).tradeInventory = some [] ∧ ¬quests.Quiet maxRecursion
  | _, _ => False

instance : ∀ server, DecidablePred (Careless server)
  | .running _, .agree _ _ _ => inferInstanceAs (Decidable (_ ∧ _ ∧ _))
  | .running _, .remove _ _ _ => inferInstanceAs (Decidable (_ ∧ _ ∧ _ ∧ _))
  | .running _, .request _ _ | .running _, .accept _ _ | .running _, .add _ _ _ _
  | .running _, .close _ _ | .running _, .walk _ _ _ _ _ | .running _, .warp _ _ _ _
  | .running _, .login _ _ _ | .running _, .logout _ _ _ | .failed _ _, _ =>
      inferInstanceAs (Decidable False)

theorem handler_backed (cfg : Config) {w : World} (h : Backed w) {event : Event}
    (hCareful : ¬Careless (.running w) event) :
    Triple (· = w) (event.handler cfg) (fun _ => Backed) Spared := by
  have hKeeps : ∀ {x : Prog Unit}, Keeps Backed x → Triple (· = w) x (fun _ => Backed) Spared :=
    fun hx => (spared_of_keeps hx).weaken (by rintro s rfl; exact h)
  have hLeave : ∀ c quests, Keeps Backed (leaveTrade (check cfg) quests c) := fun c quests =>
    leaveTrade_backed (fun _ hw => hw.but c) (fun _ _ hw _ => hw) (fun _ _ hw => hw) check_backed quests
  cases event with
  | request c victim =>
      apply hKeeps
      apply Keeps.read
      intro w
      exact .branch .ret (.branch .ret (.branch .ret (.branch .ret
        (.branch (keeps_backed (by intro _ h; exact h)) .ret))))
  | accept c victim =>
      apply hKeeps
      apply Keeps.read
      intro w
      exact .branch .ret (.branch .ret (.branch .ret (.branch ((keeps_backed (by simp [Backs])).bind fun _ =>
        (keeps_backed (by simp [Backs])).bind fun _ => keeps_note _) .ret)))
  | add c itemid amount quests => exact hKeeps (tradeAdd_backed quests itemid amount)
  | remove c itemid quests =>
      apply tradeRemove_backed h
      intro hTrading hAgree hErase
      by_contra hLoud
      exact hCareful ⟨hTrading, hAgree, hErase, hLoud⟩
  | agree c flag quests =>
      refine (tradeAgree_backed h (fun hTrading hYes hNone => ?_) quests).conseq (fun _ hs => hs)
        (fun _ _ hw => hw) fun _ _ hw _ => hw
      exact hCareful ⟨hTrading, hYes, hNone⟩
  | close c quests =>
      apply hKeeps
      apply Aside.getCharacter
      intro self
      exact .branch .ret (closeTrade_backed (fun _ hw => hw.but c) (fun _ _ hw _ => hw) (fun _ _ hw => hw)
        check_backed quests)
  | walk c direction time tile quests =>
      apply hKeeps
      apply keeps_walkCommon _ (hLeave c _) (walk_backed _ tile)
      exact fun _ hDeal => keeps_backed fun self => backs_of_deal (hDeal self)
  | warp sender c map quests => exact hKeeps (walk_backed quests (.warp map))
  | login c saved quests =>
      apply hKeeps
      exact (keeps_backed (by simp [Backs])).bind fun _ => check_backed quests c
  | logout sender c quests =>
      apply hKeeps
      exact (hLeave c quests).bind fun _ => keeps_backed (by intro _ h; exact h)

/-- The step comes to a swap in which one of the two sides offers nothing. -/
def OneSided (cfg : Config) (server : Server) (event : Event) : Prop :=
  ∃ next new c p, step cfg server event = some next ∧ next.world.log = new ++ server.world.log ∧
    .swapped c p ∈ new ∧
      ((server.world.characters c).tradeInventory = [] ∨ (server.world.characters p).tradeInventory = [])

section Runs

/-- The swaps that are new in the log are those of two offers. -/
def FairSince (w : World) (log : List Note) : Prop :=
  ∃ new, log = new ++ w.log ∧ ∀ c p, .swapped c p ∈ new →
    (w.characters c).tradeInventory ≠ [] ∧ (w.characters p).tradeInventory ≠ []

theorem robust_fairSince (w : World) : Robust (FairSince w) := by
  rintro _ n ⟨new, rfl, hNew⟩ hNote
  refine ⟨n :: new, rfl, fun c p hSwapped => ?_⟩
  obtain hFirst | hLater := List.mem_cons.mp hSwapped
  · exact (hNote c p hFirst.symm).elim
  · exact hNew c p hLater

theorem handler_fair (cfg : Config) {w : World} (h : Sound (book w)) (hBacked : Backed w) (event : Event) :
    Triple (HasBook (book w)) (event.handler cfg) (fun _ => OfLog (FairSince w))
      (fun _ => OfLog (FairSince w)) := by
  apply ofLog_handler (robust_fairSince w) cfg h ⟨[], rfl, by simp⟩ event
  intro c agree quests p _ hTrading hPartner _ hOffer hPartnerAgree
  refine ⟨[.swapped c p, .agreed c p true], rfl, fun x y hSwapped => ?_⟩
  simp only [List.mem_cons, Note.swapped.injEq, List.not_mem_nil, or_false, reduceCtorEq] at hSwapped
  obtain ⟨rfl, rfl⟩ := hSwapped
  refine ⟨hOffer, hBacked y ?_ hPartnerAgree⟩
  obtain ⟨-, hBusy | ⟨-, hNot⟩⟩ := h.partner x y hTrading hPartner
  · exact hBusy
  · exact absurd hPartnerAgree (Bool.eq_false_iff.mp hNot)

/-- What holds of the server between two handlers, when nobody is careless. -/
def BackedServer (server : Server) : Prop :=
  Kept server ∧ ∀ w, server = .running w → Backed w

/-- What a handler leaves in the log is in it when the step is over. -/
theorem finish_log {L : List Note → Prop} {b : Book} {x : Prog Unit}
    (hx : Triple (HasBook b) x (fun _ => OfLog L) (fun _ => OfLog L)) (event : Event) {w : World}
    (hw : HasBook b w) : L (finish event (x w)).world.log := by
  have hRun := hx w hw
  cases hResult : x w with
  | ok _ s =>
      rw [hResult] at hRun
      exact hRun
  | error fault s =>
      rw [hResult] at hRun
      cases fault with
      | runtimeError =>
          unfold finish
          dsimp only
          split
          · exact hRun
          · cases event.sender with
            | none => exact hRun
            | some c => exact hRun
      | nullPartner | gonePartner | danglingIterator => exact hRun

theorem not_oneSided {server : Server} (h : BackedServer server) (event : Event) :
    ¬OneSided cfg server event := by
  rintro ⟨next, new, c, p, hStep, hLog, hSwapped, hNothing⟩
  cases server with
  | failed fault w => simp [step] at hStep
  | running w =>
      obtain ⟨-, hNext⟩ := Option.ite_none_right_eq_some.mp hStep
      obtain rfl := Option.some.inj hNext
      obtain ⟨new', hLog', hFair⟩ :=
        finish_log (handler_fair cfg (h.1.2 w rfl) (h.2 w rfl) event) event rfl
      obtain rfl : new = new' := List.append_cancel_right (hLog.symm.trans hLog')
      obtain ⟨hOffer, hOffer'⟩ := hFair c p hSwapped
      exact hNothing.elim hOffer hOffer'

theorem closeClient_backed {w : World} (h : Backed w) (sender : Option CharId) :
    Backed (closeClient w sender) := by
  cases sender with
  | none => exact h
  | some c =>
      change Backed (w.modifyCharacter c ({ · with presence := .closed }))
      exact (h.but c).modify (h c)

theorem step_backed {server next : Server} {event : Event} (h : BackedServer server)
    (hCareful : ¬Careless server event) (hStep : step cfg server event = some next) : BackedServer next := by
  refine ⟨step_kept h.1 hStep, ?_⟩
  cases server with
  | failed fault w => simp [step] at hStep
  | running w =>
      obtain ⟨-, hNext⟩ := Option.ite_none_right_eq_some.mp hStep
      obtain rfl := Option.some.inj hNext
      have hRun := handler_backed cfg (h.2 w rfl) hCareful w rfl
      cases hResult : event.handler cfg w with
      | ok _ w' =>
          rw [hResult] at hRun
          rintro _ ⟨⟩
          exact hRun
      | error fault w' =>
          rw [hResult] at hRun
          cases fault with
          | nullPartner | gonePartner | danglingIterator => simp [finish]
          | runtimeError =>
              unfold finish
              dsimp only
              split
              · simp
              · rintro _ ⟨⟩
                exact closeClient_backed (hRun rfl) event.sender

end Runs

/-- In a run in which nobody agrees without an offer, every swap is one of two offers. -/
theorem both_sides_offer (cfg : Config) {w : World} (h : Initial w) {events : List Event}
    (hAvoids : Avoids (step cfg) Careless (.running w) events) :
    Avoids (step cfg) (OneSided cfg) (.running w) events := by
  have hBacked : BackedServer (.running w) := by
    refine ⟨⟨(initial_sound h).honest, ?_⟩, ?_⟩
    · rintro _ ⟨⟩
      exact initial_sound h
    · rintro _ ⟨⟩ c hTrading
      simp [h.2 c] at hTrading
  exact avoids_of_avoids (fun _ _ _ => step_backed) (fun _ event hServer _ => not_oneSided hServer event)
    hBacked hAvoids

/-- Both sides offer something, and the one takes it back again before it agrees. -/
def variedTrade : List Event :=
  [.request 1 2, .accept 2 1, .add 1 1 10 .quiet, .add 2 2 20 .quiet, .agree 2 1 .quiet,
    .remove 2 2 .quiet, .add 2 2 5 .quiet, .agree 2 1 .quiet, .agree 1 1 .quiet]

theorem both_sides_offer_variedTrade :
    Avoids (step smallConfig) (OneSided smallConfig) (.running traders) variedTrade :=
  both_sides_offer smallConfig initial_traders (by decide)

/-- The side that offers nothing agrees first. -/
def giftTrade : List Event :=
  [.request 1 2, .accept 2 1, .add 2 2 20 .quiet, .agree 1 1 .quiet, .agree 2 1 .quiet]

theorem giftTrade_oneSided :
    ¬Avoids (step smallConfig) (OneSided smallConfig) (.running traders) giftTrade := by
  intro hAvoids
  refine hAvoids (giftTrade.take 4) (.agree 2 1 .quiet) _ List.prefix_rfl rfl rfl ?_
  exact ⟨_, [.closed 2 1, .swapped 2 1, .agreed 2 1 true], 2, 1, rfl, rfl, by simp, .inr rfl⟩

end Etheos.Trade
