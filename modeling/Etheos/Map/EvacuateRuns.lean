import Etheos.Map.Evacuate

/-! Evacuations in whole runs. The event is called as often as the counter of its record says, since its
lifetime is always one more. -/
namespace Etheos.Evacuation

open General
open Timers

variable {T : Type*}

/-- No division by zero, and no warp to the jail that throws. -/
def Calling.Fit (calling : Calling T) (step : Int) : Prop :=
  calling.config.evacuateTick ≠ 0 ∧ (0 < step → calling.config.ticksPerStep ≠ 0) ∧
    (step ≤ 0 → ∀ character ∈ calling.evacChars, calling.throws character = false)

def Call.Fit : Call T → Prop
  | .evacuate length => 1 ≤ length
  | .mapEvacuate step calling => calling.Fit step

def AllFit (calls : List (Call T)) : Prop := ∀ call ∈ calls, call.Fit

/-- The countdown steps from the length of the evacuation on, as far as they have been made. -/
def CountsDown (length : Int) (steps : List (Step T)) : Prop :=
  ∀ (i : Nat) (h : i < steps.length), ∃ calling,
    steps[i] = .countdown calling (calling.countdown (length - i))

/-- All countdown steps, and behind them the one that sends to jail who is on the map and is no guide. -/
def Ended (course : Course T) : Prop :=
  ∃ before calling, course.steps =
      before ++ [.jailed calling (calling.evacChars.map fun character => .jail character.id)] ∧
    before.length = course.length ∧ CountsDown course.length before

/-- No evacuation is going on. -/
structure Idle (s : State T) : Prop where
  lock : s.evacuateLock = false
  records (r : Nat) : s.records.lookup r = none
  params (e : EventId) : s.params.lookup e = none
  last {course : Course T} : s.last = some course → Ended course

/-- An evacuation is going on. -/
structure Active (s : State T) (course : Course T) (e : EventId) (r : Nat) (counter : Int) : Prop where
  lock : s.evacuateLock = true
  records (r' : Nat) : s.records.lookup r' = if r' = r then some counter else none
  params (e' : EventId) : s.params.lookup e' = if e' = e then some r else none
  last : s.last = some course
  counts : CountsDown course.length course.steps
  notNegative : 0 ≤ counter
  begun : 0 < course.steps.length
  left : course.steps.length + counter = course.length
  event : ∃ event, s.timer.events.lookup e = some event ∧ event.manager = true ∧ event.lifetime = counter + 1
  member : e ∈ s.timer.timers
  registration : registration e s.timer.log =
    some ⟨course.length, course.now, course.speed, course.steps.length - 1, course.ticks, false⟩

variable {s next : State T} {course : Course T} {e e' : EventId} {r : Nat} {counter : Int} {calling : Calling T}

theorem CountsDown.nil (length : Int) : CountsDown (T := T) length [] := fun i h => absurd h (Nat.not_lt_zero i)

theorem CountsDown.concat {length : Int} {steps : List (Step T)} (h : CountsDown length steps) (calling : Calling T) :
    CountsDown length (steps ++ [.countdown calling (calling.countdown (length - steps.length))]) := by
  intro i hi
  rw [List.length_append, List.length_singleton] at hi
  obtain hLess | hSame := Nat.lt_or_eq_of_le (Nat.le_of_lt_succ hi)
  · obtain ⟨calling', hStep⟩ := h i hLess
    exact ⟨calling', by rw [List.getElem_append_left hLess, hStep]⟩
  · subst hSame
    exact ⟨calling, by simp⟩

theorem mapEvacuate_countdown (hRecord : s.records.lookup r = some counter) (hCounter : 0 < counter)
    (hFit : calling.Fit counter) : s.mapEvacuate r calling = some { s with
      calls := .mapEvacuate counter calling :: s.calls
      last := s.last.map fun course =>
        { course with steps := course.steps ++ [.countdown calling (calling.countdown counter)] }
      records := s.records.insert r (counter - 1) } := by
  simp [State.mapEvacuate, hRecord, hFit.1, hCounter, hFit.2.1 hCounter, State.did]

theorem acts_cases {actions : List (Action T)} (hStep : s.acts actions = some next) :
    ∃ timer, s.timer.acts actions = some timer ∧ next = { s with timer } ∧
      ∀ action ∈ actions, s.params.lookup action.event = none := by
  simp only [State.acts] at hStep
  split at hStep
  · cases hStep
  case isFalse hOthers =>
    obtain ⟨timer, hTimer, rfl⟩ := Option.map_eq_some_iff.mp hStep
    refine ⟨timer, hTimer, rfl, ?_⟩
    simpa using hOthers

/-- The step that ends the evacuation. -/
theorem mapEvacuate_jails (hRecord : s.records.lookup r = some counter) (hCounter : ¬0 < counter)
    (hFit : calling.Fit counter) (hStep : s.mapEvacuate r calling = some next) :
    ∃ timer, s.timer.acts calling.actions = some timer ∧
      (∀ action ∈ calling.actions, s.params.lookup action.event = none) ∧ next = { s with
        timer
        evacuateLock := false
        calls := .mapEvacuate counter calling :: s.calls
        last := s.last.map fun course => { course with
          steps := course.steps ++ [.jailed calling (calling.evacChars.map fun character => .jail character.id)] }
        records := s.records.erase r } := by
  have hCalm : calling.evacChars.any calling.throws = false := by
    simpa using hFit.2.2 (Int.not_lt.mp hCounter)
  simp only [State.mapEvacuate, hRecord, hFit.1, hCounter, if_false] at hStep
  obtain ⟨acted, hActs, hNext⟩ := Option.bind_eq_some_iff.mp hStep
  obtain ⟨timer, hTimer, rfl, hOthers⟩ := acts_cases hActs
  rw [hCalm] at hNext
  obtain rfl := Option.some.inj hNext
  exact ⟨timer, hTimer, hOthers, rfl⟩

theorem AllFit.mono {calls calls' : List (Call T)} (h : AllFit calls') (hCalls : calls ⊆ calls') : AllFit calls :=
  fun call hCall => h call (hCalls hCall)

/-- The event is there, and it is not one of an evacuation. -/
def Foreign (e : EventId) (s : State T) : Prop := (s.timer.events.lookup e).isSome ∧ s.params.lookup e = none

/-- All that is done with the timer are actions on its events, of which none is made one of an evacuation,
and what has been called stays written down. -/
structure Onward (s next : State T) : Prop where
  calls : s.calls ⊆ next.calls
  acts : ∃ actions, s.timer.acts actions = some next.timer
  foreign {e : EventId} : Foreign e s → Foreign e next

theorem Onward.refl (s : State T) : Onward s s := ⟨List.Subset.refl _, ⟨[], rfl⟩, id⟩

theorem Onward.trans {last : State T} (h : Onward s next) (hNext : Onward next last) : Onward s last := by
  obtain ⟨actions, hActions⟩ := h.acts
  obtain ⟨actions', hActions'⟩ := hNext.acts
  refine ⟨List.Subset.trans h.calls hNext.calls, ⟨actions ++ actions', ?_⟩, hNext.foreign ∘ h.foreign⟩
  rw [acts_append, hActions]
  exact hActions'

theorem Onward.of_acts {actions : List (Action T)} (hActs : s.timer.acts actions = some next.timer)
    (hParams : next.params = s.params) (hCalls : s.calls ⊆ next.calls) : Onward s next where
  calls := hCalls
  acts := ⟨actions, hActs⟩
  foreign hForeign := ⟨acts_exists hActs hForeign.1, hParams ▸ hForeign.2⟩

/-- What a call of `map_evacuate` does in any case. -/
theorem mapEvacuate_frame (hStep : s.mapEvacuate r calling = some next) :
    (∃ actions, s.timer.acts actions = some next.timer) ∧ next.params = s.params ∧ next.calls =
      ((s.records.lookup r).map fun counter => Call.mapEvacuate counter calling).toList ++ s.calls := by
  simp only [State.mapEvacuate] at hStep
  cases hRecord : s.records.lookup r with
  | none =>
      simp only [hRecord] at hStep
      obtain rfl := Option.some.inj hStep
      exact ⟨⟨[], rfl⟩, rfl, rfl⟩
  | some counter =>
      simp only [hRecord] at hStep
      split at hStep
      · obtain rfl := Option.some.inj hStep
        exact ⟨⟨[], rfl⟩, rfl, rfl⟩
      · split at hStep
        · split at hStep
          · obtain rfl := Option.some.inj hStep
            exact ⟨⟨[], rfl⟩, rfl, rfl⟩
          · obtain rfl := Option.some.inj hStep
            exact ⟨⟨[], rfl⟩, rfl, rfl⟩
        · obtain ⟨acted, hActs, hNext⟩ := Option.bind_eq_some_iff.mp hStep
          obtain ⟨timer, hTimer, rfl, -⟩ := acts_cases hActs
          split at hNext
          · obtain rfl := Option.some.inj hNext
            exact ⟨⟨calling.actions, hTimer⟩, rfl, rfl⟩
          · obtain rfl := Option.some.inj hNext
            exact ⟨⟨calling.actions, hTimer⟩, rfl, rfl⟩

theorem mapEvacuate_calls (hRecord : s.records.lookup r = some counter)
    (hStep : s.mapEvacuate r calling = some next) : next.calls = .mapEvacuate counter calling :: s.calls := by
  simpa [hRecord] using (mapEvacuate_frame hStep).2.2

theorem mapEvacuate_onward (hStep : s.mapEvacuate r calling = some next) : Onward s next := by
  obtain ⟨⟨actions, hActs⟩, hParams, hCalls⟩ := mapEvacuate_frame hStep
  refine Onward.of_acts hActs hParams ?_
  rw [hCalls]
  exact List.subset_append_right _ _

theorem evacuate_onward {now : T} (hStep : s.evacuate e r now calling = some next) : Onward s next := by
  simp only [State.evacuate] at hStep
  split at hStep
  · obtain rfl := Option.some.inj hStep
    exact Onward.refl s
  · split at hStep
    · obtain rfl := Option.some.inj hStep
      exact ⟨List.subset_cons_self _ _, ⟨[], rfl⟩, id⟩
    · split at hStep
      · cases hStep
      · obtain ⟨timer, hTimer, hCalled⟩ := Option.bind_eq_some_iff.mp hStep
        refine Onward.trans ⟨List.subset_cons_self _ _, ⟨_, hTimer⟩, fun {other} hForeign => ?_⟩
          (mapEvacuate_onward hCalled)
        have hOther : other ≠ e := by
          rintro rfl
          obtain ⟨created, hCreate, -⟩ := Option.bind_eq_some_iff.mp hTimer
          simp only [Timer.act, if_pos hForeign.1] at hCreate
          cases hCreate
        exact ⟨acts_exists hTimer hForeign.1, (AList.lookup_insert_ne hOther).trans hForeign.2⟩

/-- A call that does not fit divides by zero, or leaves the map locked. -/
theorem mapEvacuate_unfit (hRecord : s.records.lookup r = some counter) (hFit : ¬calling.Fit counter)
    (hStep : s.mapEvacuate r calling = some next) :
    next.fault = true ∨ next.evacuateLock = s.evacuateLock ∧ next.records.lookup r = some counter := by
  simp only [State.mapEvacuate, hRecord] at hStep
  split at hStep
  · obtain rfl := Option.some.inj hStep
    exact .inl rfl
  case isFalse hTick =>
    split at hStep
    case isTrue hCounter =>
      split at hStep
      · obtain rfl := Option.some.inj hStep
        exact .inl rfl
      case isFalse hTicks => exact absurd ⟨hTick, fun _ => hTicks, fun hEnd => by omega⟩ hFit
    case isFalse hCounter =>
      obtain ⟨acted, hActs, hNext⟩ := Option.bind_eq_some_iff.mp hStep
      obtain ⟨timer, hTimer, rfl, -⟩ := acts_cases hActs
      split at hNext
      · obtain rfl := Option.some.inj hNext
        exact .inr ⟨rfl, hRecord⟩
      case isFalse hCalm =>
        refine absurd ⟨hTick, fun hMore => absurd hMore hCounter, fun _ => ?_⟩ hFit
        simpa using hCalm

/-- In order, as long as nothing has gone wrong in a call. -/
def Orderly (s : State T) : Prop :=
  s.fault = false ∧ (Idle s ∨ ∃ course e r counter, Active s course e r counter)

theorem Active.apart {timer : Timer T} (h : Active s course e r counter) (hApart : Apart e s.timer timer) :
    Active { s with timer } course e r counter :=
  { h with
    event := by simpa [hApart.lookup] using h.event
    member := hApart.member.mpr h.member
    registration := hApart.registration.trans h.registration }

theorem Active.others (h : Active s course e r counter) (hOther : s.params.lookup e' = none) : e' ≠ e := by
  rintro rfl
  simp [h.params] at hOther

theorem Active.own (h : Active s course e r counter) {r' : Nat} (hOwn : s.params.lookup e' = some r') :
    e' = e ∧ r' = r := by
  rw [h.params] at hOwn
  split at hOwn
  · exact ⟨‹_›, (Option.some.inj hOwn).symm⟩
  · cases hOwn

theorem acts_orderly {actions : List (Action T)} (h : Orderly s) (hStep : s.acts actions = some next) :
    Orderly next := by
  obtain ⟨timer, hTimer, rfl, hOthers⟩ := acts_cases hStep
  obtain ⟨hFault, hIdle | ⟨course, e, r, counter, hActive⟩⟩ := h
  · exact ⟨hFault, .inl ⟨hIdle.lock, hIdle.records, hIdle.params, hIdle.last⟩⟩
  · have hApart := acts_apart (fun action hAction => hActive.others (hOthers action hAction)) hTimer
    exact ⟨hFault, .inr ⟨course, e, r, counter, hActive.apart hApart⟩⟩

/-- The first countdown step is made at once. -/
theorem evacuate_active {now : T} (h : Idle s) (hStep : s.evacuate e r now calling = some next)
    (hFit : AllFit next.calls) : next.fault = s.fault ∧ ∃ course counter, Active next course e r counter := by
  simp only [State.evacuate, h.lock, Bool.false_eq_true, if_false] at hStep
  split at hStep
  case isTrue hTick =>
    obtain rfl := Option.some.inj hStep
    have hLength : 1 ≤ calling.config.steps := hFit _ List.mem_cons_self
    simp [Config.steps, hTick] at hLength
  case isFalse hTick =>
    split at hStep
    · cases hStep
    obtain ⟨timer, hTimer, hCalled⟩ := Option.bind_eq_some_iff.mp hStep
    have hRecord : (s.records.insert r calling.config.steps).lookup r = some calling.config.steps :=
      AList.lookup_insert _
    have hCalls := mapEvacuate_calls (by exact hRecord) hCalled
    have hLength : 1 ≤ calling.config.steps := hFit (.evacuate calling.config.steps) (by simp [hCalls])
    have hCalling : calling.Fit calling.config.steps := hFit (.mapEvacuate _ calling) (by simp [hCalls])
    have hLifetime : calling.config.steps ≠ 0 := by omega
    obtain ⟨-, hEvent, hMember, hLog⟩ := create_register (by exact hLifetime) hTimer
    rw [mapEvacuate_countdown (by exact hRecord) hLength hCalling] at hCalled
    obtain rfl := Option.some.inj hCalled
    refine ⟨rfl, _, calling.config.steps - 1, ⟨rfl, fun r' => ?_, fun e' => ?_, rfl, ?_, by omega, ?_, ?_,
      ⟨_, hEvent, rfl, ?_⟩, hMember, ?_⟩⟩
    · by_cases hSame : r' = r <;> simp [Table.lookup_insert_eq, hSame, h.records]
    · by_cases hSame : e' = e <;> simp [Table.lookup_insert_eq, hSame, h.params]
    · simpa using (CountsDown.nil calling.config.steps).concat calling
    · simp
    · simp
    · simp
    · simp [hLog, registration]

theorem evacuate_orderly {now : T} (h : Orderly s) (hStep : s.evacuate e r now calling = some next)
    (hFit : AllFit next.calls) : Orderly next := by
  obtain ⟨hFault, hIdle | ⟨course, e', r', counter, hActive⟩⟩ := h
  · obtain ⟨hSame, course, counter, hActive⟩ := evacuate_active hIdle hStep hFit
    exact ⟨hSame.trans hFault, .inr ⟨course, e, r, counter, hActive⟩⟩
  · simp only [State.evacuate, hActive.lock, if_true] at hStep
    obtain rfl := Option.some.inj hStep
    exact ⟨hFault, .inr ⟨course, e', r', counter, hActive⟩⟩

section Deeds

variable {deed : State.Deed T} {deeds : List (State.Deed T)}

theorem deed_onward (hStep : s.deed deed = some next) : Onward s next := by
  cases deed with
  | act action =>
      obtain ⟨timer, hTimer, rfl, -⟩ := acts_cases hStep
      exact Onward.of_acts hTimer rfl (List.Subset.refl _)
  | evacuate e r now calling => exact evacuate_onward hStep

theorem deeds_onward (hStep : s.deeds deeds = some next) : Onward s next := by
  induction deeds generalizing s with
  | nil =>
      obtain rfl := Option.some.inj hStep
      exact Onward.refl s
  | cons deed deeds ih =>
      obtain ⟨between, hFirst, hRest⟩ := Option.bind_eq_some_iff.mp hStep
      exact (deed_onward hFirst).trans (ih hRest)

theorem deed_orderly (h : Orderly s) (hStep : s.deed deed = some next) (hFit : AllFit next.calls) :
    Orderly next := by
  cases deed with
  | act action => exact acts_orderly h hStep
  | evacuate e r now calling => exact evacuate_orderly h hStep hFit

theorem deeds_orderly (h : Orderly s) (hStep : s.deeds deeds = some next) (hFit : AllFit next.calls) :
    Orderly next := by
  induction deeds generalizing s with
  | nil => exact Option.some.inj hStep ▸ h
  | cons deed deeds ih =>
      obtain ⟨between, hFirst, hRest⟩ := Option.bind_eq_some_iff.mp hStep
      exact ih (deed_orderly h hFirst (hFit.mono (deeds_onward hRest).calls)) hRest

theorem callback_onward {callback : State.Callback T} (hStep : s.callback e callback = some next) :
    Onward s next := by
  simp only [State.callback] at hStep
  split at hStep
  · exact mapEvacuate_onward hStep
  · exact deeds_onward hStep

end Deeds

/-- The steps so far are the first countdown steps, and no other evacuation can begin. -/
structure Counting (s : State T) (course : Course T) : Prop where
  refused (e : EventId) (r : Nat) (now : T) (calling : Calling T) : s.evacuate e r now calling = some s
  record : ∃ r counter, (∀ r', s.records.lookup r' = if r' = r then some counter else none) ∧ 0 ≤ counter ∧
    course.steps.length + counter = course.length
  counts : CountsDown course.length course.steps

/-- The evacuation has ended with its last step, and the record is freed. -/
structure Finished (s : State T) (course : Course T) : Prop where
  lock : s.evacuateLock = false
  records (r : Nat) : s.records.lookup r = none
  ended : Ended course

theorem Active.counting (h : Active s course e r counter) : Counting s course where
  refused e r now calling := by simp [State.evacuate, h.lock]
  record := ⟨r, counter, h.records, h.notNegative, h.left⟩
  counts := h.counts

section Ticks

variable {event : TimeEvent T} {timer : Timer T}

theorem Idle.apart (h : Idle s) (timer : Timer T) : Idle { s with timer } :=
  ⟨h.lock, h.records, h.params, h.last⟩

/-- The event of an evacuation is apart from the ones of others. -/
theorem Orderly.other (h : Orderly s) (hForeign : s.params.lookup e = none)
    (hApart : ∀ e', e ≠ e' → Apart e' s.timer timer) : Orderly { s with timer } := by
  obtain ⟨hFault, hIdle | ⟨course, e', r, counter, hActive⟩⟩ := h
  · exact ⟨hFault, .inl (hIdle.apart timer)⟩
  · exact ⟨hFault, .inr ⟨course, e', r, counter, hActive.apart (hApart e' (hActive.others hForeign))⟩⟩

theorem Orderly.erase (h : Orderly s) (hForeign : s.params.lookup e = none) :
    Orderly { s with params := s.params.erase e } := by
  have hSame (e' : EventId) : (s.params.erase e).lookup e' = s.params.lookup e' := by
    by_cases hEq : e' = e
    · subst hEq
      simp [hForeign]
    · simp [hEq]
  obtain ⟨hFault, hIdle | ⟨course, e', r, counter, hActive⟩⟩ := h
  · exact ⟨hFault, .inl { hIdle with params := fun e' => (hSame e').trans (hIdle.params e') }⟩
  · exact ⟨hFault, .inr ⟨course, e', r, counter,
      { hActive with params := fun e' => (hSame e').trans (hActive.params e') }⟩⟩

/-- Where the turns of a tick begin. -/
def State.began (s : State T) (timer : Timer T) (now : T) : State T :=
  { s with
    timer := timer.note (.ticked now)
    last := s.last.map fun course => { course with ticks := course.ticks ++ [now] } }

theorem began_orderly (h : Orderly s) (hEvents : timer.events = s.timer.events)
    (hTimers : timer.timers = s.timer.timers) (hLog : timer.log = s.timer.log) (now : T) :
    Orderly (s.began timer now) := by
  obtain ⟨hFault, hIdle | ⟨course, e, r, counter, hActive⟩⟩ := h
  · refine ⟨hFault, .inl ⟨hIdle.lock, hIdle.records, hIdle.params, fun hLast => ?_⟩⟩
    obtain ⟨before, hBefore, rfl⟩ := Option.map_eq_some_iff.mp hLast
    have hEnded : Ended before := hIdle.last hBefore
    exact hEnded
  · refine ⟨hFault, .inr ⟨{ course with ticks := course.ticks ++ [now] }, e, r, counter, { hActive with
      last := by simp [State.began, hActive.last]
      event := by simpa [State.began, Timer.note, hEvents] using hActive.event
      member := by simpa [State.began, Timer.note, hTimers] using hActive.member
      registration := ?_ }⟩⟩
    simp [State.began, Timer.note, registration, hLog, hActive.registration]

variable [Add T]

/-- The lifetime is what the counter was. -/
theorem spend_lifetime (hCounter : 0 ≤ counter) (h : event.lifetime = counter + 1) :
    event.spend.lifetime = counter := by
  simp [TimeEvent.spend, forever, h]
  omega

/-- The countdown goes on, and the event lives on. -/
theorem Active.called (h : Active s course e r counter) (hEvent : s.timer.events.lookup e = some event)
    (hCounter : 0 < counter) (hSpend : s.timer.spend e event = some timer)
    (hStep : { s with timer := timer.note (.called e) }.mapEvacuate r calling = some next)
    (hFit : AllFit next.calls) : next.fault = s.fault ∧
      (∃ event, next.timer.events.lookup e = some event ∧ event.manager = true) ∧
      ∃ course, Active next course e r (counter - 1) := by
  have hRecord : s.records.lookup r = some counter := by simp [h.records]
  have hCalling : calling.Fit counter :=
    hFit (.mapEvacuate counter calling) (by simp [mapEvacuate_calls (by exact hRecord) hStep])
  rw [mapEvacuate_countdown (by exact hRecord) hCounter hCalling] at hStep
  obtain rfl := Option.some.inj hStep
  obtain ⟨event', hEvent', hManager, hLifetime⟩ := h.event
  rw [hEvent] at hEvent'
  obtain rfl := Option.some.inj hEvent'
  have hSpent := spend_lifetime h.notNegative hLifetime
  simp only [Timer.spend, hSpent, Ne.symm (Int.ne_of_lt hCounter), if_false] at hSpend
  obtain rfl := Option.some.inj hSpend
  have hFound : (s.timer.events.insert e event.spend).lookup e = some event.spend := AList.lookup_insert _
  have hLength : counter = course.length - course.steps.length := by
    have hLeft := h.left
    omega
  refine ⟨rfl, ⟨event.spend, hFound, hManager⟩, { course with
    steps := course.steps ++ [.countdown calling (calling.countdown counter)] }, ⟨h.lock, fun r' => ?_, h.params, ?_, ?_,
      by omega, ?_, ?_, ⟨event.spend, hFound, hManager, ?_⟩, h.member, ?_⟩⟩
  · by_cases hSame : r' = r <;> simp [Table.lookup_insert_eq, hSame, h.records]
  · simp [h.last]
  · rw [hLength]
    exact h.counts.concat calling
  · simp
  · simp [hLength]
  · simp [hSpent]
  · have hCalls : course.steps.length - 1 + 1 = course.steps.length := Nat.sub_add_cancel h.begun
    show Timers.registration e (.called e :: s.timer.log) = _
    simp [registration_called, h.registration, hCalls]

/-- The last step is made in the last call, after which the event is not there any more. -/
theorem Active.ended (h : Active s course e r 0) (hEvent : s.timer.events.lookup e = some event)
    (hSpend : s.timer.spend e event = some timer)
    (hStep : { s with timer := timer.note (.called e) }.mapEvacuate r calling = some next)
    (hFit : AllFit next.calls) : next.fault = s.fault ∧
      (∃ event, next.timer.events.lookup e = some event ∧ event.manager = false) ∧
      ∀ timer, Idle { next with timer, params := next.params.erase e } := by
  have hRecord : s.records.lookup r = some 0 := by simp [h.records]
  have hCalling : calling.Fit 0 :=
    hFit (.mapEvacuate 0 calling) (by simp [mapEvacuate_calls (by exact hRecord) hStep])
  obtain ⟨acted, hActs, hOthers, rfl⟩ := mapEvacuate_jails (by exact hRecord) (Int.lt_irrefl 0) hCalling hStep
  obtain ⟨event', hEvent', -, hLifetime⟩ := h.event
  rw [hEvent] at hEvent'
  obtain rfl := Option.some.inj hEvent'
  simp only [Timer.spend, spend_lifetime h.notNegative hLifetime, if_true] at hSpend
  obtain ⟨spent, hSpent, hGone⟩ := Option.bind_eq_some_iff.mp hSpend
  rw [AList.lookup_insert] at hSpent
  obtain rfl := Option.some.inj hSpent
  obtain rfl := Option.some.inj hGone
  have hApart := acts_apart (fun action hAction => h.others (hOthers action hAction)) hActs
  refine ⟨rfl, ⟨{ event.spend with manager := false }, hApart.lookup.trans (AList.lookup_insert _), rfl⟩, ?_⟩
  refine fun timer => ⟨rfl, fun r' => ?_, fun e' => ?_, fun hLast => ?_⟩
  · by_cases hSame : r' = r <;> simp [Table.lookup_erase_eq, hSame, h.records]
  · by_cases hSame : e' = e <;> simp [Table.lookup_erase_eq, hSame, h.params]
  · simp only [h.last, Option.map_some, Option.some.injEq] at hLast
    subst hLast
    have hLength := h.left
    exact ⟨course.steps, calling, rfl, by simpa using hLength, h.counts⟩

variable [LT T] [DecidableLT T] {now : T} {callbacks : EventId → State.Callback T}

/-- What a turn does with an event that is due. -/
def Visited (s : State T) (callback : State.Callback T) (e : EventId) (next : State T) : Prop :=
  ∃ event timer called event', s.timer.events.lookup e = some event ∧ s.timer.spend e event = some timer ∧
    { s with timer := timer.note (.called e) }.callback e callback = some called ∧
    called.timer.events.lookup e = some event' ∧
    next = if event'.manager then called else
      { called with
        timer := { called.timer with events := called.timer.events.erase e }
        params := called.params.erase e }

/-- The timer does what it does without the evacuations. -/
theorem visit_cases (hStep : s.visit now callbacks e = some next) :
    (next = s ∨ Visited s (callbacks e) e next) ∧
      ∃ actions, s.timer.visit now (fun _ => actions) e = some next.timer := by
  simp only [State.visit] at hStep
  split at hStep
  case isTrue hGone =>
    obtain rfl := Option.some.inj hStep
    exact ⟨.inl rfl, [], if_pos hGone⟩
  case isFalse hMember =>
    obtain ⟨event, hEvent, hVisit⟩ := Option.bind_eq_some_iff.mp hStep
    split at hVisit
    case isFalse hEarly =>
      obtain rfl := Option.some.inj hVisit
      exact ⟨.inl rfl, [], by simp [Timer.visit, hMember, hEvent, hEarly]⟩
    case isTrue hDue =>
      obtain ⟨timer, hSpend, hCalling⟩ := Option.bind_eq_some_iff.mp hVisit
      obtain ⟨called, hCalled, hAfter⟩ := Option.bind_eq_some_iff.mp hCalling
      obtain ⟨event', hEvent', hNext⟩ := Option.bind_eq_some_iff.mp hAfter
      obtain ⟨actions, hActions⟩ := (callback_onward hCalled).acts
      have hActs : (timer.note (.called e)).acts actions = some called.timer := hActions
      split at hNext
      case isTrue hManager =>
        obtain rfl := Option.some.inj hNext
        refine ⟨.inr ⟨event, timer, called, event', hEvent, hSpend, hCalled, hEvent', ?_⟩, actions, ?_⟩
        · rw [if_pos hManager]
        · simp [Timer.visit, hMember, hEvent, hDue, hSpend, hActs, hEvent', hManager]
      case isFalse hManager =>
        obtain rfl := Option.some.inj hNext
        refine ⟨.inr ⟨event, timer, called, event', hEvent, hSpend, hCalled, hEvent', ?_⟩, actions, ?_⟩
        · rw [if_neg hManager]
        · simp [Timer.visit, hMember, hEvent, hDue, hSpend, hActs, hEvent', hManager]

theorem visit_calls (hStep : s.visit now callbacks e = some next) : s.calls ⊆ next.calls := by
  obtain ⟨rfl | ⟨event, timer, called, event', -, -, hCalled, -, rfl⟩, -⟩ := visit_cases hStep
  · exact List.Subset.refl _
  · have hCalls := (callback_onward hCalled).calls
    split
    · exact hCalls
    · exact hCalls

theorem visit_orderly (h : Orderly s) (hStep : s.visit now callbacks e = some next) (hFit : AllFit next.calls) :
    Orderly next := by
  obtain ⟨rfl | ⟨event, timer, called, event', hEvent, hSpend, hCalled, hEvent', rfl⟩, -⟩ := visit_cases hStep
  · exact h
  have hFit : AllFit called.calls := by
    split at hFit
    · exact hFit
    · exact hFit
  simp only [State.callback] at hCalled
  split at hCalled
  case h_2 hForeign =>
    have hSpent : Orderly { s with timer := timer.note (.called e) } :=
      h.other hForeign fun e' hOther => (spend_apart hOther hSpend).trans (called_apart hOther timer)
    have hOrderly := deeds_orderly hSpent hCalled hFit
    have hExists : (timer.events.lookup e).isSome := spend_exists hSpend
    have hStill : Foreign e called := (deeds_onward hCalled).foreign ⟨hExists, hForeign⟩
    split
    · exact hOrderly
    · exact (hOrderly.other hStill.2 fun e' hOther => erase_apart hOther called.timer).erase hStill.2
  case h_1 r hOwn =>
    obtain ⟨hFault, hIdle | ⟨course, e', r', counter, hActive⟩⟩ := h
    · have hNone := hIdle.params e
      cases hNone.symm.trans hOwn
    · obtain ⟨rfl, rfl⟩ := hActive.own hOwn
      rcases Int.lt_or_eq_of_le hActive.notNegative with hMore | rfl
      · obtain ⟨hSame, ⟨found, hFound, hManager⟩, course, hNext⟩ :=
          hActive.called hEvent hMore hSpend hCalled hFit
        rw [hFound] at hEvent'
        obtain rfl := Option.some.inj hEvent'
        rw [if_pos hManager]
        exact ⟨hSame.trans hFault, .inr ⟨course, e, r, counter - 1, hNext⟩⟩
      · obtain ⟨hSame, ⟨found, hFound, hManager⟩, hIdle⟩ := hActive.ended hEvent hSpend hCalled hFit
        rw [hFound] at hEvent'
        obtain rfl := Option.some.inj hEvent'
        rw [if_neg (by simp [hManager])]
        exact ⟨hSame.trans hFault, .inl (hIdle _)⟩

variable {rest : List EventId}

theorem visits_calls (hStep : s.visits now callbacks rest = some next) : s.calls ⊆ next.calls := by
  induction rest generalizing s with
  | nil =>
      obtain rfl := Option.some.inj hStep
      exact List.Subset.refl _
  | cons e rest ih =>
      obtain ⟨between, hFirst, hRest⟩ := Option.bind_eq_some_iff.mp hStep
      exact List.Subset.trans (visit_calls hFirst) (ih hRest)

theorem visits_orderly (h : Orderly s) (hStep : s.visits now callbacks rest = some next)
    (hFit : AllFit next.calls) : Orderly next := by
  induction rest generalizing s with
  | nil => exact Option.some.inj hStep ▸ h
  | cons e rest ih =>
      obtain ⟨between, hFirst, hRest⟩ := Option.bind_eq_some_iff.mp hStep
      exact ih (visit_orderly h hFirst (hFit.mono (visits_calls hRest))) hRest

theorem visits_inv (h : Inv (Late now rest) s.timer) (hNodup : rest.Nodup)
    (hUncalled : ∀ other ∈ rest, Uncalled other s.timer.log) (hStep : s.visits now callbacks rest = some next) :
    Inv (Late now []) next.timer := by
  induction rest generalizing s with
  | nil => exact Option.some.inj hStep ▸ h
  | cons e rest ih =>
      obtain ⟨between, hFirst, hRest⟩ := Option.bind_eq_some_iff.mp hStep
      obtain ⟨actions, hVisit⟩ := (visit_cases hFirst).2
      obtain ⟨hBetween, -, hLater⟩ := visit_inv h hNodup hUncalled hVisit
      exact ih hBetween (List.nodup_cons.mp hNodup).2 hLater hRest

/-- A tick goes through the events that are registered, or that were when this last changed. -/
theorem tick_cases (h : Inv Nobody s.timer) (hStep : s.tick now callbacks = some next) :
    ∃ timer : Timer T, (timer.events = s.timer.events ∧ timer.timers = s.timer.timers ∧ timer.log = s.timer.log) ∧
      Inv Nobody timer ∧ (∀ e ∈ timer.timers, e ∈ timer.execlist) ∧
      (s.began timer now).visits now callbacks timer.execlist = some next := by
  obtain ⟨hRefreshed, hListed⟩ := refresh_inv h
  refine ⟨_, ?_, hRefreshed, fun e he => hListed e ?_, hStep⟩
  · split
    · exact ⟨rfl, rfl, rfl⟩
    · exact ⟨rfl, rfl, rfl⟩
  · split at he
    · exact he
    · exact he

end Ticks

section Runs

variable [Add T] [LT T]

/-- The evacuations are in order, and so are the notes of the timer. -/
structure Kept (s : State T) : Prop where
  orderly : AllFit s.calls → Orderly s
  timer : Inv Nobody s.timer

theorem start_kept : Kept (State.start : State T) where
  orderly _ := ⟨rfl, .inl ⟨rfl, fun _ => rfl, fun _ => rfl, fun h => by cases h⟩⟩
  timer := start_inv

theorem happen_kept [DecidableLT T] {happening : Happening T} (h : Kept s)
    (hStep : happen s happening = some next) : Kept next := by
  cases happening with
  | deed deed =>
      have hOnward := deed_onward hStep
      obtain ⟨actions, hActions⟩ := hOnward.acts
      refine ⟨fun hFit => deed_orderly (h.orderly (hFit.mono hOnward.calls)) hStep hFit, ?_⟩
      exact (acts_kept h.timer hActions).inv
  | tick now callbacks =>
      obtain ⟨timer, ⟨hEvents, hTimers, hLog⟩, hInv, hListed, hVisits⟩ := tick_cases h.timer hStep
      refine ⟨fun hFit => ?_, ?_⟩
      · have hCalls := visits_calls hVisits
        have hBefore := h.orderly (hFit.mono hCalls)
        exact visits_orderly (began_orderly hBefore hEvents hTimers hLog now) hVisits hFit
      · have hBegun : Inv (Late now timer.execlist) (s.began timer now).timer := ticked_inv hInv now hListed
        exact (visits_inv hBegun hInv.execlistNodup (fun _ _ => trivial) hVisits).done

/-- The last evacuation goes on or has ended, and it has where there were enough ticks for all calls. -/
structure Proper (s : State T) : Prop where
  fault : s.fault = false
  course {course : Course T} : s.last = some course → Counting s course ∨ Finished s course
  ended {course : Course T} {times : List T} : s.last = some course → times.Sublist course.ticks →
    times.length = course.length → Enough course.now course.speed times → Finished s course

/-- The event is not called too late, so that it is gone when all its calls are due. -/
theorem Active.early (h : Active s course e r counter) (hTimer : Inv Nobody s.timer) {times : List T}
    (hTimes : times.Sublist course.ticks) (hEnough : Enough course.now course.speed times) :
    times.length < course.length := by
  obtain ⟨event, found, -, hFound, -, hServed⟩ := hTimer.registered e h.member
  rw [h.registration] at hFound
  obtain rfl := Option.some.inj hFound
  have hCalls : times.length ≤ course.steps.length - 1 := hServed.resolve_right id times hTimes hEnough
  have hBegun := h.begun
  have hLeft := h.left
  have hNotNegative := h.notNegative
  omega

theorem Kept.proper (h : Kept s) (hFit : AllFit s.calls) : Proper s := by
  obtain ⟨hFault, hIdle | ⟨last, e, r, counter, hActive⟩⟩ := h.orderly hFit
  · have hFinished {course : Course T} (hLast : s.last = some course) : Finished s course :=
      ⟨hIdle.lock, hIdle.records, hIdle.last hLast⟩
    exact ⟨hFault, fun hLast => .inr (hFinished hLast), fun hLast _ _ _ => hFinished hLast⟩
  · refine ⟨hFault, fun hLast => .inl ?_, fun hLast hTimes hLength hEnough => ?_⟩
    · rw [hActive.last] at hLast
      exact Option.some.inj hLast ▸ hActive.counting
    · rw [hActive.last] at hLast
      obtain rfl := Option.some.inj hLast
      have hEarly := hActive.early h.timer hTimes hEnough
      omega

/-- In a run in which every call of `map_evacuate` meets what it needs, all evacuations are proper. -/
theorem evacuations_proper [DecidableLT T] (happenings : List (Happening T)) (s : State T)
    (hRun : run happen .start happenings = some s)
    (hLengths : ∀ length, Call.evacuate length ∈ s.calls → 1 ≤ length)
    (hFit : ∀ step calling, Call.mapEvacuate step calling ∈ s.calls → calling.Fit step) : Proper s := by
  have hAlways : Always happen Kept (.start : State T) happenings :=
    always_of_invariant (fun _ _ _ h hStep => happen_kept h hStep) start_kept happenings
  refine (hAlways happenings s (List.prefix_refl _) hRun).proper fun call hCall => ?_
  cases call with
  | evacuate length => exact hLengths length hCall
  | mapEvacuate step calling => exact hFit step calling hCall

end Runs

section Examples

/-- A guide and another character are on the map. Each tick makes a step, and there are two countdown steps. -/
def plainCalling (evacuateStep : Int) (throws : Bool) : Calling ℕ where
  config := ⟨4, evacuateStep, 2, 51, 2⟩
  characters := [⟨1, 1⟩, ⟨2, 0⟩]
  throws _ := throws
  actions := []

/-- Each tick comes when the next call is due. -/
def plainRun (calling : Calling ℕ) : List (Happening ℕ) :=
  [.deed (.evacuate 0 0 0 calling), .tick 3 fun _ => ⟨[], calling⟩, .tick 5 fun _ => ⟨[], calling⟩]

theorem evacuations_proper_plain :
    ∃ s, run happen (.start : State ℕ) (plainRun (plainCalling 2 false)) = some s ∧ Proper s := by
  let calling := plainCalling 2 false
  obtain ⟨s, hRun, hCalls⟩ : ∃ s, run happen (.start : State ℕ) (plainRun calling) = some s ∧
      s.calls = [.mapEvacuate 0 calling, .mapEvacuate 1 calling, .mapEvacuate 2 calling, .evacuate 2] :=
    ⟨_, rfl, rfl⟩
  have hFit (step : Int) : calling.Fit step :=
    ⟨by decide, fun _ => by decide, fun _ _ _ => rfl⟩
  refine ⟨s, hRun, evacuations_proper (plainRun calling) s hRun (fun length hLength => ?_) ?_⟩
  · have hTwo : length = 2 := by simpa [hCalls] using hLength
    simp [hTwo]
  · intro step calling' hCall
    have hSame : calling' = calling := by
      simp only [hCalls, List.mem_cons, Call.mapEvacuate.injEq, reduceCtorEq, List.not_mem_nil, or_false] at hCall
      obtain ⟨-, rfl⟩ | ⟨-, rfl⟩ | ⟨-, rfl⟩ := hCall <;> rfl
    exact hSame ▸ hFit step

/-- The lock stays after a warp that throws, and where a step is shorter than a tick the program
divides by zero. -/
theorem plainRun_counterexample :
    (∃ s, run happen (.start : State ℕ) (plainRun (plainCalling 2 true)) = some s ∧
      (∀ length, Call.evacuate length ∈ s.calls → 1 ≤ length) ∧ ¬Proper s) ∧
    ∃ s, run happen (.start : State ℕ) [.deed (.evacuate 0 0 0 (plainCalling 1 false))] = some s ∧
      (∀ length, Call.evacuate length ∈ s.calls → 1 ≤ length) ∧ ¬Proper s := by
  constructor
  · let calling := plainCalling 2 true
    obtain ⟨s, hRun, hCalls, hLock, hLast⟩ : ∃ s, run happen (.start : State ℕ) (plainRun calling) = some s ∧
        s.calls = [.mapEvacuate 0 calling, .mapEvacuate 1 calling, .mapEvacuate 2 calling, .evacuate 2] ∧
        s.evacuateLock = true ∧ ∃ steps, s.last = some ⟨2, 0, 2, [3, 5], steps⟩ :=
      ⟨_, rfl, rfl, rfl, _, rfl⟩
    refine ⟨s, hRun, by simp [hCalls], fun h => ?_⟩
    obtain ⟨steps, hLast⟩ := hLast
    have hEnough : Enough 0 2 [3, 5] := by
      unfold Enough
      decide
    have hFree := (h.ended hLast (List.Sublist.refl _) rfl hEnough).lock
    rw [hLock] at hFree
    cases hFree
  · let calling := plainCalling 1 false
    obtain ⟨s, hRun, hCalls, hFault⟩ : ∃ s,
        run happen (.start : State ℕ) [.deed (.evacuate 0 0 0 calling)] = some s ∧
        s.calls = [.mapEvacuate 2 calling, .evacuate 2] ∧ s.fault = true :=
      ⟨_, rfl, rfl, rfl⟩
    refine ⟨s, hRun, by simp [hCalls], fun h => ?_⟩
    rw [h.fault] at hFault
    cases hFault

end Examples

end Etheos.Evacuation
