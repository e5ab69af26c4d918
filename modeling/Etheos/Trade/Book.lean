import Etheos.Character.World
import Mathlib.Logic.Relation

/-! What a trade is: a book of who trades with whom, the moves by which it
changes, and what every sequence of moves keeps. No items change hands here. -/
namespace Etheos.Trade

open Characters

/-- The part of a character that a trade is about. -/
structure Deal where
  presence : Presence
  trading : Bool
  tradePartner : Option CharId
  tradeAgree : Bool
  tradeInventory : List CharacterItem

@[ext]
structure Book where
  deals : CharId → Deal
  log : List Note

namespace Book

def modify (b : Book) (c : CharId) (f : Deal → Deal) : Book :=
  { b with deals := Function.update b.deals c (f (b.deals c)) }

def note (b : Book) (n : Note) : Book := { b with log := n :: b.log }

/-- Both sides stop trading. The flag of the partner stays as it is. -/
def close (b : Book) (c p : CharId) : Book :=
  (((b.modify c ({ · with trading := false, tradeInventory := [], tradeAgree := false })).modify p
    ({ · with trading := false, tradeInventory := [] })).modify c
    ({ · with tradeAgree := false })).note (.closed c p)

/-- Only one of the two sides has left. -/
def leave (b : Book) (c p : CharId) : Book :=
  (b.modify c ({ · with trading := false, tradeInventory := [], tradeAgree := false })).note
    (.closed c p)

def disconnect (b : Book) (c : CharId) : Book := b.modify c ({ · with presence := .closed })

def part (b : Book) (c p : CharId) : Book :=
  (b.modify p ({ · with tradePartner := none })).modify c ({ · with tradePartner := none })

@[simp] theorem modify_log (b : Book) (c : CharId) (f : Deal → Deal) :
    (b.modify c f).log = b.log := rfl

@[simp] theorem note_deals (b : Book) (n : Note) : (b.note n).deals = b.deals := rfl

@[simp] theorem note_log (b : Book) (n : Note) : (b.note n).log = n :: b.log := rfl

@[simp] theorem close_log (b : Book) (c p : CharId) : (b.close c p).log = .closed c p :: b.log := rfl

@[simp] theorem part_log (b : Book) (c p : CharId) : (b.part c p).log = b.log := rfl

@[simp] theorem modify_deals (b : Book) (c x : CharId) (f : Deal → Deal) :
    (b.modify c f).deals x = if x = c then f (b.deals c) else b.deals x := by
  simp [modify, Function.update_apply]

end Book

/-- Deals in which the two characters, and nobody else, are the parties. -/
def Between (x y c p : CharId) : Prop := c = x ∧ p = y ∨ c = y ∧ p = x

/-- The note ends the consent that `x` gave to its trade with `y`. -/
def Revokes (x y : CharId) : Note → Prop
  | .opened c p | .changed c p | .closed c p => Between x y c p
  | .agreed c p agree => c = x ∧ p = y ∧ agree = false
  | .swapped _ _ => False

/-- `x` agreed to its trade with `y`, and nothing has ended this consent. -/
def Consented (x y : CharId) (log : List Note) : Prop :=
  ∃ newer older, log = newer ++ .agreed x y true :: older ∧ ∀ n ∈ newer, ¬Revokes x y n

/-- No swap without the consent of both sides, all along the log. -/
def Honest (log : List Note) : Prop :=
  ∀ newer older c p, log = newer ++ .swapped c p :: older → Consented c p older ∧ Consented p c older

theorem consented_agreed (x y : CharId) (log : List Note) :
    Consented x y (.agreed x y true :: log) :=
  ⟨[], log, rfl, by simp⟩

theorem Consented.cons {x y : CharId} {log : List Note} {n : Note} (h : Consented x y log)
    (hNote : ¬Revokes x y n) : Consented x y (n :: log) := by
  obtain ⟨newer, older, rfl, hNewer⟩ := h
  exact ⟨n :: newer, older, rfl, List.forall_mem_cons.mpr ⟨hNote, hNewer⟩⟩

theorem honest_nil : Honest [] := by
  intro newer older c p h
  simp at h

theorem Honest.cons {log : List Note} {n : Note} (h : Honest log)
    (hNote : ∀ c p, n = .swapped c p → Consented c p log ∧ Consented p c log) :
    Honest (n :: log) := by
  intro newer older c p hLog
  cases newer with
  | nil =>
      obtain ⟨rfl, rfl⟩ := List.cons.inj hLog
      exact hNote c p rfl
  | cons first newer =>
      obtain ⟨_, rfl⟩ := List.cons.inj hLog
      exact h newer older c p rfl

/-- One move in the book. -/
inductive Move : Book → Book → Prop
  | ask {b c p} (hPlaying : (b.deals c).presence = .playing)
      (hFree : (b.deals c).trading = false) (hOther : p ≠ c) :
      Move b (b.modify c ({ · with tradePartner := some p }))
  | enter {b c p} (hPlaying : (b.deals c).presence = .playing)
      (hOnline : (b.deals p).presence.online) (hFree : (b.deals c).trading = false)
      (hPartnerFree : (b.deals p).trading = false)
      (hAsked : (b.deals p).tradePartner = some c) (hOther : p ≠ c) :
      Move b (((b.modify c ({ · with tradePartner := some p, trading := true, tradeAgree := false })
        ).modify p ({ · with trading := true, tradeAgree := false })).note (.opened c p))
  | agree {b c p} (agree : Bool) (hTrading : (b.deals c).trading)
      (hPartner : (b.deals c).tradePartner = some p) :
      Move b ((b.modify c ({ · with tradeAgree := agree })).note (.agreed c p agree))
  | offer {b c} (items : List CharacterItem) (hTrading : (b.deals c).trading) :
      Move b (b.modify c ({ · with tradeInventory := items }))
  | change {b c p} (hTrading : (b.deals c).trading)
      (hPartner : (b.deals c).tradePartner = some p) :
      Move b (((b.modify c ({ · with tradeAgree := false })).modify p
        ({ · with tradeAgree := false })).note (.changed c p))
  | swap {b c p} (hTrading : (b.deals c).trading) (hPartner : (b.deals c).tradePartner = some p)
      (hAgree : (b.deals c).tradeAgree) (hPartnerAgree : (b.deals p).tradeAgree) :
      Move b (b.note (.swapped c p))
  | close {b c p} (hTrading : (b.deals c).trading)
      (hPartner : (b.deals c).tradePartner = some p) : Move b (b.close c p)
  | part {b c p} (hFree : (b.deals c).trading = false) (hPartnerFree : (b.deals p).trading = false)
      (hPartner : (b.deals c).tradePartner = some p)
      (hPartnerPartner : (b.deals p).tradePartner = some c) : Move b (b.part c p)
  | disconnect {b c} : Move b (b.disconnect c)
  | leave {b c} (hFree : (b.deals c).trading = false) :
      Move b (b.modify c ({ · with presence := .gone }))
  | join {b c} (hAbsent : (b.deals c).presence = .absent) :
      Move b (b.modify c fun _ => ⟨.playing, false, none, false, []⟩)

/-- The swap breaks off between the two halves of its end: one side is out of
the trade, and its client is closed. -/
inductive Abandon : Book → Book → Prop
  | intro {b c p} (hTrading : (b.deals c).trading) (hPartner : (b.deals c).tradePartner = some p) :
      Abandon b ((b.leave c p).disconnect c)

/-- Any number of moves, between which swaps may break off. -/
def Moves : Book → Book → Prop := Relation.ReflTransGen fun b b' => Move b b' ∨ Abandon b b'

/-- The book is in order, up to characters that were left alone in a trade. -/
structure Sound (b : Book) : Prop where
  online : ∀ c, (b.deals c).trading → (b.deals c).presence.online
  other : ∀ c, (b.deals c).tradePartner ≠ some c
  partner : ∀ c p, (b.deals c).trading → (b.deals c).tradePartner = some p →
    (b.deals p).tradePartner = some c ∧ ((b.deals p).trading ∨
      ((b.deals p).presence = .closed ∨ (b.deals p).presence = .gone) ∧
        (b.deals p).tradeAgree = false)
  present : ∀ c, (b.deals c).trading → (b.deals c).tradePartner.isSome
  consented : ∀ c p, (b.deals c).trading → (b.deals c).tradePartner = some p →
    (b.deals p).tradeAgree → Consented p c b.log
  honest : Honest b.log

namespace Sound

variable {b : Book} {c p : CharId}

/-- A playing character that is not in a trade is nobody's partner in one. -/
theorem alone (h : Sound b) (hPlaying : (b.deals c).presence = .playing)
    (hFree : (b.deals c).trading = false) {z : CharId} (hTrading : (b.deals z).trading) :
    (b.deals z).tradePartner ≠ some c := by
  intro hPartner
  rcases (h.partner z c hTrading hPartner).2 with hBusy | ⟨hGone, _⟩
  · simp [hFree] at hBusy
  · simp [hPlaying] at hGone

theorem note (h : Sound b) (n : Note)
    (hRevokes : ∀ x y, (b.deals x).trading → (b.deals x).tradePartner = some y →
      (b.deals y).tradeAgree → ¬Revokes y x n)
    (hSwap : ∀ x y, n = .swapped x y → Consented x y b.log ∧ Consented y x b.log) :
    Sound (b.note n) where
  online := h.online
  other := h.other
  partner := h.partner
  present := h.present
  consented x y hTrading hPartner hAgree :=
    (h.consented x y hTrading hPartner hAgree).cons (hRevokes x y hTrading hPartner hAgree)
  honest := h.honest.cons hSwap

/-- A change of one deal, from which no trade and no agreement results. -/
theorem modify (h : Sound b) {f : Deal → Deal}
    (hTrading : (f (b.deals c)).trading → (b.deals c).trading)
    (hOnline : (f (b.deals c)).trading → (f (b.deals c)).presence.online)
    (hPartner : (f (b.deals c)).tradePartner = (b.deals c).tradePartner)
    (hKept : (b.deals c).trading → (f (b.deals c)).trading ∨
      ((f (b.deals c)).presence = .closed ∨ (f (b.deals c)).presence = .gone) ∧
        (f (b.deals c)).tradeAgree = false)
    (hPresence : (b.deals c).presence = .closed ∨ (b.deals c).presence = .gone →
      (f (b.deals c)).presence = .closed ∨ (f (b.deals c)).presence = .gone)
    (hAgree : (f (b.deals c)).tradeAgree → (b.deals c).tradeAgree) :
    Sound (b.modify c f) where
  online x := by
    have hx := h.online x
    simp only [Book.modify_deals]
    grind
  other x := by
    have hx := h.other x
    simp only [Book.modify_deals]
    grind
  partner x y := by
    have hx := h.partner x y
    simp only [Book.modify_deals]
    grind
  present x := by
    have hx := h.present x
    simp only [Book.modify_deals]
    grind
  consented x y := by
    have hx := h.consented x y
    simp only [Book.modify_deals, Book.modify_log]
    grind
  honest := h.honest

/-- A change of the deal of a character that nobody in a trade has as its partner, and that is in none then. -/
theorem lone (h : Sound b) {f : Deal → Deal} (hFree : (f (b.deals c)).trading = false)
    (hOther : (f (b.deals c)).tradePartner ≠ some c)
    (hAlone : ∀ z, (b.deals z).trading → (b.deals z).tradePartner ≠ some c) : Sound (b.modify c f) where
  online x := by
    have hx := h.online x
    simp only [Book.modify_deals]
    grind
  other x := by
    have hx := h.other x
    simp only [Book.modify_deals]
    grind
  partner x y := by
    have hx := h.partner x y
    have hNot := hAlone x
    simp only [Book.modify_deals]
    grind
  present x := by
    have hx := h.present x
    simp only [Book.modify_deals]
    grind
  consented x y := by
    have hx := h.consented x y
    have hNot := hAlone x
    simp only [Book.modify_deals, Book.modify_log]
    grind
  honest := h.honest

theorem ask (h : Sound b) (hPlaying : (b.deals c).presence = .playing)
    (hFree : (b.deals c).trading = false) (hOther : p ≠ c) :
    Sound (b.modify c ({ · with tradePartner := some p })) :=
  h.lone hFree (fun hSame => hOther (Option.some.inj hSame)) fun _ hTrading => h.alone hPlaying hFree hTrading

theorem enter (h : Sound b) (hPlaying : (b.deals c).presence = .playing)
    (hOnline : (b.deals p).presence.online) (hFree : (b.deals c).trading = false)
    (hAsked : (b.deals p).tradePartner = some c) (hOther : p ≠ c) :
    Sound (((b.modify c ({ · with tradePartner := some p, trading := true, tradeAgree := false })
      ).modify p ({ · with trading := true, tradeAgree := false })).note (.opened c p)) where
  online x := by
    have hx := h.online x
    simp only [Book.note_deals, Book.modify_deals]
    grind [Presence.online]
  other x := by
    have hx := h.other x
    simp only [Book.note_deals, Book.modify_deals]
    grind
  partner x y := by
    have hx := h.partner x y
    have hp := h.partner x p
    have hAlone := h.alone hPlaying hFree (z := x)
    simp only [Book.note_deals, Book.modify_deals]
    grind
  present x := by
    have hx := h.present x
    simp only [Book.note_deals, Book.modify_deals]
    grind
  consented x y := by
    have hx := h.consented x y
    have hCons := @Consented.cons y x b.log (.opened c p)
    simp only [Book.note_deals, Book.modify_deals, Book.note_log, Book.modify_log]
    grind [Revokes, Between]
  honest := h.honest.cons (by simp)

theorem agree (h : Sound b) (agree : Bool) (hTrading : (b.deals c).trading)
    (hPartner : (b.deals c).tradePartner = some p) :
    Sound ((b.modify c ({ · with tradeAgree := agree })).note (.agreed c p agree)) where
  online x := by
    have hx := h.online x
    simp only [Book.note_deals, Book.modify_deals]
    grind
  other x := by
    have hx := h.other x
    simp only [Book.note_deals, Book.modify_deals]
    grind
  partner x y := by
    have hx := h.partner x y
    simp only [Book.note_deals, Book.modify_deals]
    grind
  present x := by
    have hx := h.present x
    simp only [Book.note_deals, Book.modify_deals]
    grind
  consented x y := by
    -- the only trade in which `c` is the partner is the one with `p`
    have hx := h.consented x y
    have hUnique := h.partner x y
    have hAgreed := consented_agreed c p b.log
    have hCons := @Consented.cons y x b.log (.agreed c p agree)
    simp only [Book.note_deals, Book.modify_deals, Book.note_log, Book.modify_log]
    grind [Revokes]
  honest := h.honest.cons (by simp)

theorem swap (h : Sound b) (hTrading : (b.deals c).trading)
    (hPartner : (b.deals c).tradePartner = some p) (hAgree : (b.deals c).tradeAgree)
    (hPartnerAgree : (b.deals p).tradeAgree) : Sound (b.note (.swapped c p)) := by
  obtain ⟨hBack, hBusy | ⟨_, hNot⟩⟩ := h.partner c p hTrading hPartner
  · apply h.note
    · intro x y _ _ _
      simp [Revokes]
    · intro x y hNote
      obtain ⟨rfl, rfl⟩ := Note.swapped.inj hNote
      exact ⟨h.consented p c hBusy hBack hAgree, h.consented c p hTrading hPartner hPartnerAgree⟩
  · simp [hNot] at hPartnerAgree

theorem change (h : Sound b) :
    Sound (((b.modify c ({ · with tradeAgree := false })).modify p
      ({ · with tradeAgree := false })).note (.changed c p)) := by
  have hReset : ∀ {b : Book}, Sound b → ∀ x, Sound (b.modify x ({ · with tradeAgree := false })) :=
    fun h x => h.modify id (h.online x) rfl .inl id (by simp)
  apply (hReset (hReset h c) p).note
  · intro x y _ _ hAgree hRevokes
    simp only [Book.modify_deals] at hAgree
    grind [Revokes, Between]
  · simp

theorem close (h : Sound b) (hTrading : (b.deals c).trading)
    (hPartner : (b.deals c).tradePartner = some p) : Sound (b.close c p) where
  online x := by
    have hx := h.online x
    simp only [Book.close, Book.note_deals, Book.modify_deals]
    grind
  other x := by
    have hx := h.other x
    simp only [Book.close, Book.note_deals, Book.modify_deals]
    grind
  partner x y := by
    have hx := h.partner x y
    have hc := h.partner c p hTrading hPartner
    simp only [Book.close, Book.note_deals, Book.modify_deals]
    grind
  present x := by
    have hx := h.present x
    simp only [Book.close, Book.note_deals, Book.modify_deals]
    grind
  consented x y := by
    have hx := h.consented x y
    have hCons := @Consented.cons y x b.log (.closed c p)
    simp only [Book.close, Book.note_deals, Book.modify_deals, Book.note_log, Book.modify_log]
    grind [Revokes, Between]
  honest := h.honest.cons (by simp)

theorem part (h : Sound b) (hFree : (b.deals c).trading = false)
    (hPartnerFree : (b.deals p).trading = false) (hPartner : (b.deals c).tradePartner = some p)
    (hBack : (b.deals p).tradePartner = some c) : Sound (b.part c p) := by
  have hFirst : Sound (b.modify p ({ · with tradePartner := none })) := by
    apply h.lone hPartnerFree (by simp)
    intro z hTrading hThere
    obtain rfl := Option.some.inj ((h.partner z p hTrading hThere).1.symm.trans hBack)
    exact Bool.false_ne_true (hFree.symm.trans hTrading)
  have hNotSame : c ≠ p := fun hSame => h.other c (hSame ▸ hPartner)
  apply hFirst.lone
  · simpa [hNotSame] using hFree
  · simp
  · intro z hTrading hThere
    simp only [Book.modify_deals] at hTrading hThere
    split at hThere
    case isTrue => cases hThere
    case isFalse hNot =>
      rw [if_neg hNot] at hTrading
      exact hNot (Option.some.inj ((h.partner z c hTrading hThere).1.symm.trans hPartner))

theorem join (h : Sound b) (hAbsent : (b.deals c).presence = .absent) :
    Sound (b.modify c fun _ => ⟨.playing, false, none, false, []⟩) := by
  apply h.lone rfl (by simp)
  intro z hTrading hThere
  rcases (h.partner z c hTrading hThere).2 with hBusy | ⟨hGone, _⟩
  · have hOnline := h.online c hBusy
    rw [hAbsent] at hOnline
    cases hOnline
  · simp [hAbsent] at hGone

end Sound

/-- Every move keeps the book in order. -/
theorem Move.sound {b b' : Book} (h : Sound b) (hMove : Move b b') : Sound b' := by
  cases hMove with
  | ask hPlaying hFree hOther => exact h.ask hPlaying hFree hOther
  | enter hPlaying hOnline hFree hPartnerFree hAsked hOther =>
      exact h.enter hPlaying hOnline hFree hAsked hOther
  | agree agree hTrading hPartner => exact h.agree agree hTrading hPartner
  | offer items hTrading => exact h.modify id (h.online _) rfl .inl id id
  | change hTrading hPartner => exact h.change
  | swap hTrading hPartner hAgree hPartnerAgree =>
      exact h.swap hTrading hPartner hAgree hPartnerAgree
  | close hTrading hPartner => exact h.close hTrading hPartner
  | part hFree hPartnerFree hPartner hBack => exact h.part hFree hPartnerFree hPartner hBack
  | disconnect => exact h.modify id (fun _ => rfl) rfl .inl (fun _ => .inl rfl) id
  | leave hFree =>
      exact h.modify id (by simp [hFree]) rfl .inl (fun _ => .inr rfl) id
  | join hAbsent => exact h.join hAbsent

theorem Sound.moves {b b' : Book} (h : Sound b) (hMoves : Relation.ReflTransGen Move b b') :
    Sound b' := by
  induction hMoves with
  | refl => exact h
  | tail _ hMove ih => exact hMove.sound ih

theorem Book.leave_disconnect (b : Book) (c p : CharId) :
    (b.leave c p).disconnect c = (b.modify c ({ · with
      trading := false, tradeInventory := [], tradeAgree := false, presence := .closed })).note
      (.closed c p) := by
  ext1
  · funext x
    simp only [Book.leave, Book.disconnect, Book.modify_deals, Book.note_deals]
    grind
  · rfl

theorem Abandon.sound {b b' : Book} (h : Sound b) (hAbandon : Abandon b b') : Sound b' := by
  cases hAbandon with
  | @intro c p hTrading hPartner =>
      rw [Book.leave_disconnect]
      apply Sound.note
      · exact h.modify (by simp) (by simp) rfl (fun _ => .inr ⟨.inl rfl, rfl⟩) (fun _ => .inl rfl)
          (by simp)
      · intro x y hx hy hAgree hRevokes
        have hBack := h.partner x y
        simp only [Book.modify_deals] at hx hy hAgree
        grind [Revokes, Between]
      · simp

theorem Sound.allMoves {b b' : Book} (h : Sound b) (hMoves : Moves b b') : Sound b' := by
  induction hMoves with
  | refl => exact h
  | tail _ hMove ih =>
      rcases hMove with hMove | hAbandon
      · exact hMove.sound ih
      · exact hAbandon.sound ih

theorem Moves.of_reflTransGen {b b' : Book} (h : Relation.ReflTransGen Move b b') : Moves b b' :=
  h.lift id fun _ _ => .inl

/-- Nobody is left alone in a trade. -/
def Attended (b : Book) : Prop :=
  ∀ c p, (b.deals c).trading → (b.deals c).tradePartner = some p → (b.deals p).trading

/-- The two sides of every trade point at each other. -/
def Paired (b : Book) : Prop :=
  ∀ c, (b.deals c).trading → ∃ p, (b.deals c).tradePartner = some p ∧ p ≠ c ∧
    (b.deals p).trading ∧ (b.deals p).tradePartner = some c

theorem Sound.paired {b : Book} (h : Sound b) (hAttended : Attended b) : Paired b := by
  intro c hTrading
  obtain ⟨p, hPartner⟩ := Option.isSome_iff_exists.mp (h.present c hTrading)
  obtain ⟨hBack, _⟩ := h.partner c p hTrading hPartner
  refine ⟨p, hPartner, ?_, hAttended c p hTrading hPartner, hBack⟩
  rintro rfl
  exact h.other p hPartner

/-- Unlike a swap that breaks off, a move leaves nobody alone. -/
theorem Move.attended {b b' : Book} (h : Sound b) (hAttended : Attended b) (hMove : Move b b') :
    Attended b' := by
  intro x y
  have hxy := hAttended x y
  cases hMove with
  | ask hPlaying hFree hOther =>
      simp only [Book.modify_deals]
      grind
  | @enter c p hPlaying hOnline hFree hPartnerFree hAsked hOther =>
      simp only [Book.note_deals, Book.modify_deals]
      grind
  | agree agree hTrading hPartner =>
      simp only [Book.note_deals, Book.modify_deals]
      grind
  | offer items hTrading =>
      simp only [Book.modify_deals]
      grind
  | change hTrading hPartner =>
      simp only [Book.note_deals, Book.modify_deals]
      grind
  | swap hTrading hPartner hAgree hPartnerAgree => exact hxy
  | close hTrading hPartner =>
      have hBack := h.partner x y
      have hBack' := h.partner _ _ hTrading hPartner
      simp only [Book.close, Book.note_deals, Book.modify_deals]
      grind
  | part hFree hPartnerFree hPartner hBack =>
      simp only [Book.part, Book.modify_deals]
      grind
  | disconnect =>
      simp only [Book.disconnect, Book.modify_deals]
      grind
  | leave hFree =>
      simp only [Book.modify_deals]
      grind
  | join hAbsent =>
      have hOnline := h.online y
      simp only [Book.modify_deals]
      grind [Presence.online]

theorem Attended.moves {b b' : Book} (h : Sound b) (hAttended : Attended b)
    (hMoves : Relation.ReflTransGen Move b b') : Attended b' := by
  induction hMoves with
  | refl => exact hAttended
  | tail hMoves hMove ih => exact hMove.attended (h.moves hMoves) ih

end Etheos.Trade
