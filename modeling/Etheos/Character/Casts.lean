import Etheos.Character.Spells
import Etheos.General.Logs
import Mathlib.Data.Int.Order.Basic

/-! What is acted on is what was requested. -/
namespace Etheos.Spells

open General

variable {T : Type*} [LinearOrder T] [Add T]

/-- The last thing that is known of the character is a request of the spell, whose time has come
before `now`. Nothing has cancelled it or put another one in its place, and it has not been acted on. -/
def BelongsTo (c : PlayerId) (spell : SpellId) (now : T) (before earlier : List (Note T)) : Prop :=
  ∃ time castTime cooldown, Latest (·.caster = c) (.requested c spell time castTime cooldown) earlier before ∧
    time + (castTime + cooldown) < now

/-- The request of the spell is over at `due`. -/
def Pending (c : PlayerId) (spell : SpellId) (due : T) (log : List (Note T)) : Prop :=
  ∃ time castTime cooldown earlier,
    Latest (·.caster = c) (.requested c spell time castTime cooldown) earlier log ∧
      time + (castTime + cooldown) = due

/-- An act belongs to a request. -/
def Lawful (note : Note T) (before : List (Note T)) : Prop :=
  match note with
  | .acted c spell _ now => ∃ earlier, BelongsTo c spell now before earlier
  | _ => True

structure Inv (s : State T) : Prop where
  owned : ∀ {e event}, s.events.lookup e = some event →
    ∃ character, s.characters.lookup event.param = some character ∧ character.spellEvent = some e
  chanting : ∀ {c character e}, s.characters.lookup c = some character → character.spellEvent = some e →
    ∃ event, s.events.lookup e = some event ∧ event.param = c ∧
      Pending c character.spellId (event.lasttime + event.speed) s.log
  ready : ∀ {c character}, s.characters.lookup c = some character → character.spellReady →
    ∃ due, Pending c character.spellId due s.log ∧ due < s.now
  lawful : Each Lawful s.log

variable {s next : State T} {c : PlayerId} {character changed : Character T} {spell : SpellId} {told : Note T}

theorem Pending.cons {due : T} {log : List (Note T)} (h : Pending c spell due log) (hOther : told.caster ≠ c) :
    Pending c spell due (told :: log) := by
  obtain ⟨time, castTime, cooldown, earlier, hLatest, hDue⟩ := h
  exact ⟨time, castTime, cooldown, earlier, hLatest.cons hOther, hDue⟩

theorem Pending.belongsTo {due : T} {log : List (Note T)} (h : Pending c spell due log) (hDue : due < s.now) :
    ∃ earlier, BelongsTo c spell s.now log earlier := by
  obtain ⟨time, castTime, cooldown, earlier, hLatest, rfl⟩ := h
  exact ⟨earlier, time, castTime, cooldown, hLatest, hDue⟩

section Fields

variable (s : State T) (event : Option EventId) (c : PlayerId) (character : Character T) (note : Note T)

theorem lookup_delete (e : EventId) :
    (s.delete event).events.lookup e = if event = some e then none else s.events.lookup e := by
  cases event with
  | none => rfl
  | some e' =>
      simp only [State.delete, Table.lookup_erase_eq, Option.some.injEq, eq_comm]

@[simp] theorem delete_characters : (s.delete event).characters = s.characters := by
  cases event <;> rfl

@[simp] theorem delete_now : (s.delete event).now = s.now := by
  cases event <;> rfl

@[simp] theorem delete_log : (s.delete event).log = s.log := by
  cases event <;> rfl

@[simp] theorem put_events : (s.put c character).events = s.events := rfl

@[simp] theorem put_now : (s.put c character).now = s.now := rfl

@[simp] theorem put_log : (s.put c character).log = s.log := rfl

theorem lookup_put (other : PlayerId) : (s.put c character).characters.lookup other =
    if other = c then some character else s.characters.lookup other :=
  Table.lookup_insert_eq _ _ _ _

@[simp] theorem note_events : (s.note note).events = s.events := rfl

@[simp] theorem note_characters : (s.note note).characters = s.characters := rfl

@[simp] theorem note_now : (s.note note).now = s.now := rfl

@[simp] theorem note_log : (s.note note).log = note :: s.log := rfl

end Fields

namespace Inv

/-- No two characters have an event in common. -/
theorem unshared (h : Inv s) {other : PlayerId} {character' : Character T} {e : EventId}
    (hLookup : s.characters.lookup c = some character) (hEvent : character.spellEvent = some e)
    (hLookup' : s.characters.lookup other = some character') (hEvent' : character'.spellEvent = some e) :
    other = c := by
  obtain ⟨event, hHere, hParam, -⟩ := h.chanting hLookup hEvent
  obtain ⟨event', hHere', hParam', -⟩ := h.chanting hLookup' hEvent'
  obtain rfl := Option.some.inj (hHere.symm.trans hHere')
  exact hParam'.symm.trans hParam

/-- The event of a character is given up. What else is known of the chant stays true. -/
theorem release (h : Inv s) (hLookup : s.characters.lookup c = some character)
    (hEvent : changed.spellEvent = none)
    (hReady : changed.spellReady → ∃ due, Pending c changed.spellId due s.log ∧ due < s.now) :
    Inv ((s.delete character.spellEvent).put c changed) := by
  constructor
  · intro e event hLookupEvent
    rw [put_events, lookup_delete] at hLookupEvent
    split at hLookupEvent
    next => simp at hLookupEvent
    next hOther =>
      obtain ⟨owner, hOwner, hOwned⟩ := h.owned hLookupEvent
      have hNe : event.param ≠ c := by
        intro hParam
        rw [hParam, hLookup, Option.some.injEq] at hOwner
        exact hOther (hOwner ▸ hOwned)
      exact ⟨owner, by simpa [lookup_put, hNe] using hOwner, hOwned⟩
  · intro other character' e hLookup' hEvent'
    rw [lookup_put] at hLookup'
    split at hLookup'
    next =>
      obtain rfl := Option.some.inj hLookup'
      simp [hEvent] at hEvent'
    next hNe =>
      rw [delete_characters] at hLookup'
      obtain ⟨event, hHere, hParam, hPending⟩ := h.chanting hLookup' hEvent'
      refine ⟨event, ?_, hParam, by simpa using hPending⟩
      rw [put_events, lookup_delete, if_neg, hHere]
      intro hSame
      exact hNe (h.unshared hLookup hSame hLookup' hEvent')
  · intro other character' hLookup' hReady'
    rw [lookup_put] at hLookup'
    split at hLookup'
    next hSame =>
      subst hSame
      obtain rfl := Option.some.inj hLookup'
      simpa using hReady hReady'
    next =>
      rw [delete_characters] at hLookup'
      simpa using h.ready hLookup' hReady'
  · simpa using h.lawful

/-- A change of what does not belong to the chant. -/
theorem put (h : Inv s) (hLookup : s.characters.lookup c = some character)
    (hEvent : changed.spellEvent = character.spellEvent) (hReady : changed.spellReady = character.spellReady)
    (hId : changed.spellId = character.spellId) : Inv (s.put c changed) := by
  constructor
  · intro e event hLookupEvent
    obtain ⟨owner, hOwner, hOwned⟩ := h.owned hLookupEvent
    rw [lookup_put]
    split
    next hSame =>
      rw [hSame, hLookup, Option.some.injEq] at hOwner
      exact ⟨changed, rfl, by rw [hEvent, hOwner, hOwned]⟩
    next => exact ⟨owner, hOwner, hOwned⟩
  · intro other character' e hLookup' hEvent'
    rw [lookup_put] at hLookup'
    split at hLookup'
    next hSame =>
      subst hSame
      obtain rfl := Option.some.inj hLookup'
      simpa [hId] using h.chanting hLookup (hEvent ▸ hEvent')
    next => exact h.chanting hLookup' hEvent'
  · intro other character' hLookup' hReady'
    rw [lookup_put] at hLookup'
    split at hLookup'
    next hSame =>
      subst hSame
      obtain rfl := Option.some.inj hLookup'
      simpa [hId] using h.ready hLookup (hReady ▸ hReady')
    next => exact h.ready hLookup' hReady'
  · exact h.lawful

/-- A note about somebody without a chant. -/
theorem note (h : Inv s)
    (hQuiet : ∀ character, s.characters.lookup told.caster = some character →
      character.spellEvent = none ∧ character.spellReady = false)
    (hLawful : Lawful told s.log) : Inv (s.note told) := by
  constructor
  · exact h.owned
  · intro c character e hLookup hEvent
    have hNe : told.caster ≠ c := by
      rintro rfl
      simp [(hQuiet character hLookup).1] at hEvent
    obtain ⟨event, hHere, hParam, hPending⟩ := h.chanting hLookup hEvent
    exact ⟨event, hHere, hParam, hPending.cons hNe⟩
  · intro c character hLookup hReady
    have hNe : told.caster ≠ c := by
      rintro rfl
      simp [(hQuiet character hLookup).2] at hReady
    obtain ⟨due, hPending, hDue⟩ := h.ready hLookup hReady
    exact ⟨due, hPending.cons hNe, hDue⟩
  · exact ⟨hLawful, h.lawful⟩

theorem cancelSpell (h : Inv s) (hLookup : s.characters.lookup c = some character)
    (hEvent : changed.spellEvent = character.spellEvent) : Inv (s.cancelSpell c changed) := by
  unfold State.cancelSpell
  rw [hEvent]
  exact h.release hLookup rfl (by simp [Character.quiet])

end Inv

/-- Nothing is left of the chant. -/
theorem lookup_cancelSpell : (s.cancelSpell c character).characters.lookup c = some character.quiet := by
  simp [State.cancelSpell, lookup_put]

namespace Inv

theorem cancel (h : Inv s) (hLookup : s.characters.lookup c = some character)
    (hEvent : changed.spellEvent = character.spellEvent) : Inv (s.cancel c changed) := by
  refine (h.cancelSpell hLookup hEvent).note (fun left hLeft => ?_) trivial
  obtain rfl := Option.some.inj (lookup_cancelSpell.symm.trans hLeft)
  exact ⟨rfl, rfl⟩

theorem spellAct (h : ∀ fired, Inv (s.cancelSpell c { character with spellFiredTime := fired }))
    (hDue : ∃ due, Pending c character.spellId due s.log ∧ due < s.now) : Inv (s.spellAct c character) := by
  obtain ⟨due, hPending, hDue⟩ := hDue
  unfold State.spellAct
  dsimp only
  split
  next => exact h character.spellFiredTime
  next =>
    split
    next cast _ =>
      refine (h s.now).note (fun left hLeft => ?_) ?_
      · obtain rfl := Option.some.inj (lookup_cancelSpell.symm.trans hLeft)
        exact ⟨rfl, rfl⟩
      · have hLog : (s.cancelSpell c { character with spellFiredTime := s.now }).log = s.log := by
          simp [State.cancelSpell]
        rw [hLog]
        exact hPending.belongsTo hDue
    next => exact h s.now

theorem castAt (h : Inv s) (hLookup : s.characters.lookup c = some character) (target : SpellTarget) (targetId : Nat)
    (timestamp : Timestamp) : Inv (s.castAt c character target targetId timestamp) := by
  unfold State.castAt
  dsimp only
  split
  next => exact h.cancel hLookup rfl
  next =>
    split
    next hReady =>
      have hDue := h.ready hLookup hReady
      exact spellAct (fun _ => h.cancelSpell hLookup rfl) hDue
    next => exact h.put hLookup rfl rfl rfl

theorem perform (h : Inv s) (hLookup : s.characters.lookup c = some character) (action : Action) :
    Inv (s.perform c character action) := by
  cases action with
  | walk successful =>
      cases successful
      · exact h
      · exact h.cancel hLookup rfl
  | attack loaded =>
      cases loaded
      · exact h
      · exact h.cancel hLookup rfl
  | face | sit | stand | enter map | reset => exact h.cancel hLookup rfl
  | addSpell spell =>
      show Inv (if _ then _ else _)
      split
      · exact h
      · exact h.put hLookup rfl rfl rfl
  | delSpell spell => exact h.put hLookup rfl rfl rfl

/-- Somebody without a chant goes or comes. -/
theorem login (h : Inv s) (hNobody : s.characters.lookup c = none) (hEvent : changed.spellEvent = none)
    (hReady : changed.spellReady = false) : Inv (s.put c changed) := by
  constructor
  · intro e event hLookupEvent
    obtain ⟨owner, hOwner, hOwned⟩ := h.owned hLookupEvent
    have hNe : event.param ≠ c := by
      intro hParam
      rw [hParam, hNobody] at hOwner
      simp at hOwner
    exact ⟨owner, by simpa [lookup_put, hNe] using hOwner, hOwned⟩
  · intro other character' e hLookup' hEvent'
    rw [lookup_put] at hLookup'
    split at hLookup'
    next =>
      obtain rfl := Option.some.inj hLookup'
      simp [hEvent] at hEvent'
    next => exact h.chanting hLookup' hEvent'
  · intro other character' hLookup' hReady'
    rw [lookup_put] at hLookup'
    split at hLookup'
    next =>
      obtain rfl := Option.some.inj hLookup'
      simp [hReady] at hReady'
    next => exact h.ready hLookup' hReady'
  · exact h.lawful

theorem logout (h : Inv s) (hLookup : s.characters.lookup c = some character) : Inv (s.logout c character) := by
  have hCancel : Inv (s.cancel c character) := h.cancel hLookup rfl
  have hQuiet : (s.cancel c character).characters.lookup c = some character.quiet := lookup_cancelSpell
  have hOthers : ∀ {other left}, ((s.cancel c character).characters.erase c).lookup other = some left →
      (s.cancel c character).characters.lookup other = some left := by
    intro other left hLeft
    rw [Table.lookup_erase_eq] at hLeft
    split at hLeft
    · simp at hLeft
    · exact hLeft
  constructor
  · intro e event hLookupEvent
    obtain ⟨owner, hOwner, hOwned⟩ := hCancel.owned hLookupEvent
    have hNe : event.param ≠ c := by
      intro hParam
      rw [hParam, hQuiet, Option.some.injEq] at hOwner
      simp [← hOwner, Character.quiet] at hOwned
    exact ⟨owner, by simpa [State.logout, Table.lookup_erase_eq, hNe] using hOwner, hOwned⟩
  · intro other left e hLeft
    exact hCancel.chanting (hOthers hLeft)
  · intro other left hLeft
    exact hCancel.ready (hOthers hLeft)
  · exact hCancel.lawful

/-- A request by somebody without a chant. -/
theorem chant (h : Inv s) (hLookup : s.characters.lookup c = some character) (hEvent : character.spellEvent = none)
    (hReady : character.spellReady = false) {e : EventId} (hFree : s.events.lookup e = none) (castTime cooldown : T) :
    Inv ({ s.put c { character with spellId := spell, spellEvent := some e } with
        events := s.events.insert e ⟨c, s.now, castTime + cooldown⟩ }.note
      (.requested c spell s.now castTime cooldown)) := by
  have hUsed : ∀ {e' event}, s.events.lookup e' = some event → e' ≠ e := by
    rintro e' event hHere rfl
    simp [hFree] at hHere
  constructor
  · intro e' event hHere
    simp only [note_events, Table.lookup_insert_eq] at hHere
    simp only [note_characters, lookup_put]
    split at hHere
    next hSame =>
      obtain rfl := Option.some.inj hHere
      exact ⟨_, if_pos rfl, congrArg some hSame.symm⟩
    next =>
      obtain ⟨owner, hOwner, hOwned⟩ := h.owned hHere
      have hNe : event.param ≠ c := by
        intro hParam
        rw [hParam, hLookup, Option.some.injEq] at hOwner
        simp [← hOwner, hEvent] at hOwned
      exact ⟨owner, by simpa [hNe] using hOwner, hOwned⟩
  · intro other left e' hLeft hEvent'
    simp only [note_characters, lookup_put] at hLeft
    simp only [note_events, note_log, Table.lookup_insert_eq]
    split at hLeft
    next hSame =>
      obtain rfl := Option.some.inj hLeft
      obtain rfl := Option.some.inj hEvent'
      exact ⟨_, if_pos rfl, hSame.symm, s.now, castTime, cooldown, s.log, hSame ▸ Latest.head, rfl⟩
    next hNe =>
      obtain ⟨event, hHere, hParam, hPending⟩ := h.chanting hLeft hEvent'
      exact ⟨event, by rw [if_neg (hUsed hHere), hHere], hParam, hPending.cons (Ne.symm hNe)⟩
  · intro other left hLeft hReady'
    simp only [note_characters, lookup_put] at hLeft
    split at hLeft
    next =>
      obtain rfl := Option.some.inj hLeft
      simp [hReady] at hReady'
    next hNe =>
      obtain ⟨due, hPending, hDue⟩ := h.ready hLeft hReady'
      exact ⟨due, hPending.cons (Ne.symm hNe), hDue⟩
  · exact ⟨trivial, h.lawful⟩

/-- The chant of the one whose event it is is over. -/
theorem castSpell (h : Inv s) (hLookup : s.characters.lookup c = some character) {e : EventId}
    (hEvent : character.spellEvent = some e)
    (hDue : ∃ due, Pending c character.spellId due s.log ∧ due < s.now) :
    Inv ((s.delete (some e)).castSpell c character) := by
  have hRelease : ∀ changed : Character T, changed.spellEvent = none → changed.spellId = character.spellId →
      Inv ((s.delete (some e)).put c changed) := by
    intro changed hNone hId
    rw [← hEvent]
    exact h.release hLookup hNone fun _ => hId ▸ hDue
  unfold State.castSpell
  rw [hEvent]
  dsimp only
  split
  next => exact hRelease _ rfl rfl
  next =>
    split
    next =>
      refine spellAct (fun fired => hRelease _ rfl rfl) ?_
      simpa using hDue
    next => exact hRelease _ rfl rfl

theorem fire (h : Inv s) {e : EventId} (hStep : s.fire e = some next) : Inv next := by
  simp only [State.fire, Option.bind_eq_bind, Option.bind_eq_some_iff] at hStep
  obtain ⟨event, hEvent, hStep⟩ := hStep
  split at hStep
  next hDue =>
    obtain ⟨character, hLookup, hNext⟩ := Option.bind_eq_some_iff.mp hStep
    obtain rfl := Option.some.inj hNext
    obtain ⟨owner, hOwner, hOwned⟩ := h.owned hEvent
    obtain rfl := Option.some.inj (hLookup.symm.trans hOwner)
    obtain ⟨event', hEvent', -, hPending⟩ := h.chanting hLookup hOwned
    obtain rfl := Option.some.inj (hEvent.symm.trans hEvent')
    exact h.castSpell hLookup hOwned ⟨_, hPending, hDue⟩
  next => simp at hStep

variable [Sub T] [Zero T] {chant : Nat → T}

theorem request (h : Inv s) (hLookup : s.characters.lookup c = some character) {timestamp : Timestamp} {e : EventId}
    (hStep : s.request chant c character spell timestamp e = some next) : Inv next := by
  unfold State.request at hStep
  dsimp only at hStep
  have hCancel : Inv (s.cancel c { character with timestamp := timestamp }) := h.cancel hLookup rfl
  have hQuiet : (s.cancel c { character with timestamp := timestamp }).characters.lookup c =
      some { character.quiet with timestamp := timestamp } := lookup_cancelSpell
  generalize s.cancel c { character with timestamp := timestamp } = quiet at hStep hCancel hQuiet
  split at hStep
  next => exact Option.some.inj hStep ▸ hCancel
  next =>
    split at hStep
    next => simp at hStep
    next hFree =>
      obtain rfl := Option.some.inj hStep
      exact hCancel.chant hQuiet rfl rfl (by simpa using hFree) _ _

theorem handle (h : Inv s) (hLookup : s.characters.lookup c = some character) {packet : Packet}
    (hStep : s.handle chant c character packet = some next) : Inv next := by
  cases packet with
  | request spell timestamp e => exact h.request hLookup hStep
  | targetSelf timestamp =>
      obtain rfl := Option.some.inj hStep
      unfold State.targetSelf
      split
      · exact h
      · exact h.castAt hLookup _ _ _
  | targetOther targetType victim timestamp =>
      obtain rfl := Option.some.inj hStep
      unfold State.targetOther
      split
      · exact h
      · split
        · exact h.castAt hLookup _ _ _
        · exact h.castAt hLookup _ _ _
        · exact h.cancel hLookup rfl
  | targetGroup timestamp =>
      obtain rfl := Option.some.inj hStep
      unfold State.targetGroup
      split
      · exact h
      · exact h.castAt hLookup _ _ _

theorem step (h : Inv s) {event : Event T} (hStep : step chant s event = some next) : Inv next := by
  cases event with
  | login c map spells =>
      obtain ⟨hNobody, hNext⟩ := Option.ite_none_left_eq_some.mp hStep
      obtain rfl := Option.some.inj hNext
      exact h.login (by simpa using hNobody) rfl rfl
  | logout c =>
      obtain ⟨character, hLookup, rfl⟩ := Option.map_eq_some_iff.mp hStep
      exact h.logout hLookup
  | packet c packet =>
      obtain ⟨character, hLookup, hNext⟩ := Option.bind_eq_some_iff.mp hStep
      exact h.handle hLookup hNext
  | perform c action =>
      obtain ⟨character, hLookup, rfl⟩ := Option.map_eq_some_iff.mp hStep
      exact h.perform hLookup action
  | fire e => exact h.fire hStep
  | wait now =>
      obtain ⟨hLater, hNext⟩ := Option.ite_none_right_eq_some.mp hStep
      obtain rfl := Option.some.inj hNext
      refine ⟨h.owned, h.chanting, fun hLookup hReady => ?_, h.lawful⟩
      obtain ⟨due, hPending, hDue⟩ := h.ready hLookup hReady
      exact ⟨due, hPending, lt_of_lt_of_le hDue hLater⟩
  | rehash settings =>
      obtain rfl := Option.some.inj hStep
      exact ⟨h.owned, h.chanting, h.ready, h.lawful⟩
  | npcs map npcs =>
      obtain rfl := Option.some.inj hStep
      exact ⟨h.owned, h.chanting, h.ready, h.lawful⟩

omit [Sub T] [Zero T] in
/-- The one whose event is due is still there. -/
theorem fires (h : Inv s) {e : EventId} {event : TimeEvent T} (hEvent : s.events.lookup e = some event)
    (hDue : event.lasttime + event.speed < s.now) : (s.fire e).isSome := by
  obtain ⟨character, hLookup, -⟩ := h.owned hEvent
  simp [State.fire, hEvent, hDue, hLookup]

end Inv

theorem inv_start (now : T) (settings : Settings T) : Inv (State.start now settings) :=
  ⟨by simp [State.start], by simp [State.start], by simp [State.start], trivial⟩

variable [Sub T] [Zero T]

/-- In every run each act belongs to a request, and no two acts of a character to the same one. -/
theorem acts_requested (chant : Nat → T) (now : T) (settings : Settings T) (events : List (Event T)) :
    Always (step chant) (fun s =>
      (∀ later c spell cast now before, s.log = later ++ .acted c spell cast now :: before →
        ∃ earlier, BelongsTo c spell now before earlier) ∧
      ∀ later c between before spell cast now earlier spell' cast' now' earlier',
        s.log = later ++ .acted c spell' cast' now' :: (between ++ .acted c spell cast now :: before) →
        BelongsTo c spell now before earlier →
        BelongsTo c spell' now' (between ++ .acted c spell cast now :: before) earlier' →
        earlier ≠ earlier') (.start now settings) events := by
  have hInv : Always (step chant) Inv (.start now settings) events :=
    always_of_invariant (fun _ _ _ h => h.step) (inv_start now settings) events
  refine hInv.mono fun s h => ⟨?_, ?_⟩
  · intro later c spell cast now before hSplit
    exact each_iff.mp h.lawful later _ before hSplit
  · rintro later c between before spell cast now earlier spell' cast' now' earlier' - hFirst hSecond rfl
    obtain ⟨time, castTime, cooldown, hLatest, -⟩ := hFirst
    obtain ⟨time', castTime', cooldown', hLatest', -⟩ := hSecond
    exact hLatest.place rfl hLatest'

/-- A spell is requested, aimed before its time has come and acted on after that. -/
example :
    let settings : Settings Int := ⟨150, true, [{}, ⟨1, 2, .heal, .friendly, .caster⟩]⟩
    (run (step fun castTime => 47 * (castTime : Int)) (.start 1000 settings)
      [.login 7 1 [1], .packet 7 (.request 1 0 0), .packet 7 (.targetSelf 90), .wait 1095, .fire 0]).any
        fun s => s.log matches [.acted 7 1 .spellSelf 1095, .requested 7 1 1000 94 0, .cancelled 7] := by
  decide

end Etheos.Spells
