import Etheos.Util.Lifetimes

/-! What is done with other events leaves an event as it is. -/
namespace Etheos.Timers

open General

variable {T : Type*}

/-- The event that the action is about. -/
def Action.event : Action T → EventId
  | .create e _ => e
  | .register e _ => e
  | .unregister e => e

/-- The event is the same in both, and so is what the notes say of it. -/
structure Apart (e : EventId) (s next : Timer T) : Prop where
  lookup : next.events.lookup e = s.events.lookup e
  member : e ∈ next.timers ↔ e ∈ s.timers
  registration : registration e next.log = registration e s.log

variable {s next last : Timer T} {e other : EventId}

theorem Apart.refl (e : EventId) (s : Timer T) : Apart e s s := ⟨rfl, Iff.rfl, rfl⟩

theorem Apart.trans (h : Apart e s next) (hNext : Apart e next last) : Apart e s last :=
  ⟨hNext.lookup.trans h.lookup, hNext.member.trans h.member, hNext.registration.trans h.registration⟩

theorem unregister_apart (hOther : other ≠ e) (hStep : s.unregister other = some next) : Apart e s next := by
  obtain ⟨event, -, hNext⟩ := Option.bind_eq_some_iff.mp hStep
  obtain rfl := Option.some.inj hNext
  exact ⟨AList.lookup_insert_ne hOther.symm, List.mem_erase_of_ne hOther.symm, rfl⟩

theorem act_apart {action : Action T} (hOther : action.event ≠ e) (hStep : s.act action = some next) :
    Apart e s next := by
  cases action with
  | create other event =>
      simp only [Timer.act] at hStep
      split at hStep
      · cases hStep
      · obtain rfl := Option.some.inj hStep
        exact ⟨AList.lookup_insert_ne (Ne.symm hOther), Iff.rfl, rfl⟩
  | register other now =>
      obtain ⟨event, -, hRegister⟩ := Option.bind_eq_some_iff.mp hStep
      split at hRegister
      · obtain rfl := Option.some.inj hRegister
        exact Apart.refl e s
      · obtain rfl := Option.some.inj hRegister
        have hDifferent : e ≠ other := Ne.symm hOther
        refine ⟨AList.lookup_insert_ne hDifferent, ?_, if_neg hOther⟩
        simp [mem_timers_insert, hDifferent]
  | unregister other =>
      obtain ⟨between, hBetween, rfl⟩ := Option.map_eq_some_iff.mp hStep
      have h := unregister_apart hOther hBetween
      refine ⟨h.lookup, h.member, ?_⟩
      simp only [Timer.note, Timers.registration, h.registration]
      cases Timers.registration e s.log with
      | none => rfl
      | some r => exact congrArg some (if_neg hOther)

theorem acts_apart {actions : List (Action T)} (hOthers : ∀ action ∈ actions, action.event ≠ e)
    (hStep : s.acts actions = some next) : Apart e s next := by
  induction actions generalizing s with
  | nil =>
      obtain rfl := Option.some.inj hStep
      exact Apart.refl e s
  | cons action actions ih =>
      obtain ⟨hFirst, hRest⟩ := List.forall_mem_cons.mp hOthers
      obtain ⟨between, hBetween, hNext⟩ := Option.bind_eq_some_iff.mp hStep
      exact (act_apart hFirst hBetween).trans (ih hRest hNext)

theorem registration_called (e : EventId) (log : List (Note T)) :
    registration e (.called e :: log) = (registration e log).map fun r => { r with calls := r.calls + 1 } := by
  simp [registration]

theorem called_apart (hOther : other ≠ e) (s : Timer T) : Apart e s (s.note (.called other)) := by
  refine ⟨rfl, Iff.rfl, ?_⟩
  simp only [Timer.note, Timers.registration]
  cases Timers.registration e s.log with
  | none => rfl
  | some r => exact congrArg some (if_neg hOther)

theorem spend_apart [Add T] {event : TimeEvent T} (hOther : other ≠ e) (hStep : s.spend other event = some next) :
    Apart e s next := by
  simp only [Timer.spend] at hStep
  have hInsert : Apart e s { s with events := s.events.insert other event.spend } :=
    ⟨AList.lookup_insert_ne hOther.symm, Iff.rfl, rfl⟩
  split at hStep
  · exact hInsert.trans (unregister_apart hOther hStep)
  · obtain rfl := Option.some.inj hStep
    exact hInsert

theorem spend_exists [Add T] {event : TimeEvent T} (hStep : s.spend e event = some next) :
    (next.events.lookup e).isSome := by
  simp only [Timer.spend] at hStep
  split at hStep
  · obtain ⟨found, -, hNext⟩ := Option.bind_eq_some_iff.mp hStep
    obtain rfl := Option.some.inj hNext
    simp
  · obtain rfl := Option.some.inj hStep
    simp

theorem erase_apart (hOther : other ≠ e) (s : Timer T) : Apart e s { s with events := s.events.erase other } :=
  ⟨AList.lookup_erase_ne hOther.symm, Iff.rfl, rfl⟩

theorem acts_append (actions actions' : List (Action T)) :
    s.acts (actions ++ actions') = (s.acts actions).bind (·.acts actions') := by
  induction actions generalizing s with
  | nil => rfl
  | cons action actions ih => simp [Timer.acts, ih, Option.bind_assoc]

/-- Nothing that is done with events deletes one. -/
theorem act_exists {action : Action T} (hStep : s.act action = some next) (h : (s.events.lookup e).isSome) :
    (next.events.lookup e).isSome := by
  by_cases hOther : action.event = e
  · subst hOther
    cases action with
    | create e event =>
        simp only [Timer.act, Action.event] at hStep h
        rw [if_pos h] at hStep
        cases hStep
    | register e now =>
        obtain ⟨event, -, hRegister⟩ := Option.bind_eq_some_iff.mp hStep
        split at hRegister
        · exact Option.some.inj hRegister ▸ h
        · obtain rfl := Option.some.inj hRegister
          simp [Action.event]
    | unregister e =>
        obtain ⟨between, hBetween, rfl⟩ := Option.map_eq_some_iff.mp hStep
        obtain ⟨event, -, hNext⟩ := Option.bind_eq_some_iff.mp hBetween
        obtain rfl := Option.some.inj hNext
        simp [Timer.note, Action.event]
  · rwa [(act_apart hOther hStep).lookup]

theorem acts_exists {actions : List (Action T)} (hStep : s.acts actions = some next)
    (h : (s.events.lookup e).isSome) : (next.events.lookup e).isSome := by
  induction actions generalizing s with
  | nil => exact Option.some.inj hStep ▸ h
  | cons action actions ih =>
      obtain ⟨between, hBetween, hNext⟩ := Option.bind_eq_some_iff.mp hStep
      exact ih hNext (act_exists hBetween h)

/-- A new event that is registered at once. -/
theorem create_register {event : TimeEvent T} {now : T} (hLifetime : event.lifetime ≠ 0)
    (hStep : s.acts [.create e event, .register e now] = some next) :
    s.events.lookup e = none ∧
      next.events.lookup e = some { event with lasttime := now, manager := true } ∧
      e ∈ next.timers ∧ next.log = .registered e event.lifetime now event.speed :: s.log := by
  obtain ⟨created, hCreate, hRest⟩ := Option.bind_eq_some_iff.mp hStep
  obtain ⟨registered, hRegister, hLast⟩ := Option.bind_eq_some_iff.mp hRest
  obtain rfl := Option.some.inj hLast
  simp only [Timer.act] at hCreate
  split at hCreate
  · cases hCreate
  case isFalse hFree =>
    obtain rfl := Option.some.inj hCreate
    obtain ⟨found, hFound, hNext⟩ := Option.bind_eq_some_iff.mp hRegister
    rw [AList.lookup_insert] at hFound
    obtain rfl := Option.some.inj hFound
    rw [if_neg hLifetime] at hNext
    obtain rfl := Option.some.inj hNext
    refine ⟨by simpa using hFree, AList.lookup_insert _, ?_, rfl⟩
    simp [mem_timers_insert]

end Etheos.Timers
