import Etheos.Util.Timer

/-! How often the timer calls an event, told from the notes of what has happened. -/
namespace Etheos.Timers

open General

section Notes

variable {T : Type*}

namespace Note

variable (e : EventId)

def registers : Note T → Bool
  | .registered e' .. => e' = e
  | _ => false

def unregisters : Note T → Bool
  | .unregistered e' => e' = e
  | _ => false

def calls : Note T → Bool
  | .called e' => e' = e
  | _ => false

def time : Note T → Option T
  | .ticked now => some now
  | _ => none

end Note

/-- The times of the ticks, from the first one on. -/
def times (log : List (Note T)) : List T := log.reverse.filterMap (·.time)

/-- What has become of the last registration of an event. -/
structure Registration (T : Type*) where
  lifetime : Int
  now : T
  speed : T
  calls : Nat
  ticks : List T
  unregistered : Bool

def registration (e : EventId) : List (Note T) → Option (Registration T)
  | [] => none
  | note :: older =>
      match note with
      | .registered e' lifetime now speed =>
          if e' = e then some ⟨lifetime, now, speed, 0, [], false⟩ else registration e older
      | .unregistered e' =>
          (registration e older).map fun r => if e' = e then { r with unregistered := true } else r
      | .ticked now => (registration e older).map fun r => { r with ticks := r.ticks ++ [now] }
      | .called e' => (registration e older).map fun r => if e' = e then { r with calls := r.calls + 1 } else r

/-- The event has not been called since the last tick began. -/
def Uncalled (e : EventId) : List (Note T) → Prop
  | [] => True
  | .ticked _ :: _ => True
  | .called e' :: older => e' ≠ e ∧ Uncalled e older
  | _ :: older => Uncalled e older

/-- Events are called while they are registered, not too often, and not twice in one tick. -/
def Lawful : List (Note T) → Prop
  | [] => True
  | .called e :: older =>
      (∃ r, registration e older = some r ∧ r.unregistered = false ∧ (0 < r.lifetime → r.calls < r.lifetime)) ∧
        Uncalled e older ∧ Lawful older
  | _ :: older => Lawful older

variable {e : EventId} {later earlier log : List (Note T)}

theorem Lawful.tail {note : Note T} (h : Lawful (note :: log)) : Lawful log := by
  cases note with
  | called e => exact h.2.2
  | _ => exact h

theorem Lawful.suffix (h : Lawful (later ++ earlier)) : Lawful earlier := by
  induction later with
  | nil => exact h
  | cons note later ih => exact ih h.tail

/-- What is noted after a registration. -/
theorem registration_later {lifetime : Int} {now speed : T} (h : ∀ note ∈ later, note.registers e = false) :
    registration e (later ++ .registered e lifetime now speed :: earlier) =
      some ⟨lifetime, now, speed, later.countP (·.calls e), times later, later.any (·.unregisters e)⟩ := by
  induction later with
  | nil => exact if_pos rfl
  | cons note later ih =>
      obtain ⟨hNote, hLater⟩ := List.forall_mem_cons.mp h
      have hRest := ih hLater
      rw [List.cons_append]
      unfold registration
      cases note with
      | registered e' lifetime now speed =>
          have hOther : e' ≠ e := of_decide_eq_false hNote
          dsimp only
          rw [if_neg hOther, hRest]
          simp [Note.calls, Note.unregisters, times, Note.time]
      | unregistered e' =>
          dsimp only
          rw [hRest]
          by_cases hSame : e' = e <;> simp [Note.calls, Note.unregisters, times, Note.time, hSame]
      | ticked now =>
          dsimp only
          rw [hRest]
          simp [Note.calls, Note.unregisters, times, Note.time]
      | called e' =>
          dsimp only
          rw [hRest]
          by_cases hSame : e' = e <;> simp [Note.calls, Note.unregisters, times, Note.time, hSame]

theorem Lawful.calls_le (h : Lawful log) {r : Registration T} (hr : registration e log = some r)
    (hPositive : 0 < r.lifetime) : r.calls ≤ r.lifetime := by
  induction log generalizing r with
  | nil => cases hr
  | cons note log ih =>
      have hLog := h.tail
      unfold registration at hr
      cases note with
      | registered e' lifetime now speed =>
          dsimp only at hr
          split at hr
          · obtain rfl := Option.some.inj hr
            exact Int.le_of_lt hPositive
          · exact ih hLog hr hPositive
      | unregistered e' =>
          obtain ⟨before, hBefore, rfl⟩ := Option.map_eq_some_iff.mp hr
          by_cases hSame : e' = e
          · rw [if_pos hSame] at hPositive ⊢
            exact ih hLog hBefore (r := before) hPositive
          · rw [if_neg hSame] at hPositive ⊢
            exact ih hLog hBefore hPositive
      | ticked now =>
          obtain ⟨before, hBefore, rfl⟩ := Option.map_eq_some_iff.mp hr
          exact ih hLog hBefore (r := before) hPositive
      | called e' =>
          obtain ⟨before, hBefore, rfl⟩ := Option.map_eq_some_iff.mp hr
          by_cases hSame : e' = e
          · subst hSame
            obtain ⟨⟨r, hr, -, hLeft⟩, -⟩ := h
            rw [hBefore] at hr
            obtain rfl := Option.some.inj hr
            rw [if_pos rfl] at hPositive ⊢
            exact hLeft hPositive
          · rw [if_neg hSame] at hPositive ⊢
            exact ih hLog hBefore hPositive

/-- Where nobody registers the event again, it stays unregistered. -/
theorem unregistered_later (h : ∀ note ∈ later, note.registers e = false) {r : Registration T}
    (hr : registration e (later ++ .unregistered e :: earlier) = some r) : r.unregistered = true := by
  induction later generalizing r with
  | nil =>
      obtain ⟨before, -, rfl⟩ := Option.map_eq_some_iff.mp hr
      rw [if_pos rfl]
  | cons note later ih =>
      obtain ⟨hNote, hLater⟩ := List.forall_mem_cons.mp h
      rw [List.cons_append] at hr
      unfold registration at hr
      cases note with
      | registered e' lifetime now speed =>
          have hOther : e' ≠ e := of_decide_eq_false hNote
          dsimp only at hr
          rw [if_neg hOther] at hr
          exact ih hLater hr
      | unregistered e' | ticked now | called e' =>
          obtain ⟨before, hBefore, rfl⟩ := Option.map_eq_some_iff.mp hr
          have hUnregistered := ih hLater hBefore
          try split
          all_goals first | exact hUnregistered | rfl

theorem Lawful.never (h : Lawful (later ++ .unregistered e :: earlier))
    (hLater : ∀ note ∈ later, note.registers e = false) : ∀ note ∈ later, note.calls e = false := by
  induction later with
  | nil => exact fun note hNote => absurd hNote List.not_mem_nil
  | cons note later ih =>
      obtain ⟨hNote, hRest⟩ := List.forall_mem_cons.mp hLater
      refine List.forall_mem_cons.mpr ⟨?_, ih h.tail hRest⟩
      cases note with
      | called e' =>
          refine decide_eq_false ?_
          rintro rfl
          obtain ⟨⟨r, hr, hActive, -⟩, -⟩ := h
          rw [unregistered_later hRest hr] at hActive
          cases hActive
      | _ => rfl

theorem Uncalled.ticked (h : Uncalled e (later ++ .called e :: earlier)) : ∃ now, .ticked now ∈ later := by
  induction later with
  | nil => exact absurd rfl h.1
  | cons note later ih =>
      cases note with
      | ticked now => exact ⟨now, List.mem_cons_self⟩
      | called e' =>
          obtain ⟨now, hNow⟩ := ih h.2
          exact ⟨now, List.mem_cons_of_mem _ hNow⟩
      | registered | unregistered =>
          obtain ⟨now, hNow⟩ := ih h
          exact ⟨now, List.mem_cons_of_mem _ hNow⟩

theorem sublist_concat {now : T} {times ticks : List T} (h : times.Sublist (ticks ++ [now])) :
    times.Sublist ticks ∨ ∃ before, times = before ++ [now] ∧ before.Sublist ticks := by
  obtain ⟨before, last, rfl, hBefore, hLast⟩ := List.sublist_append_iff.mp h
  obtain rfl | rfl := List.sublist_singleton.mp hLast
  · rw [List.append_nil]
    exact .inl hBefore
  · exact .inr ⟨before, rfl, hBefore⟩

end Notes

section Due

variable {T : Type*} [Add T] [LT T]

/-- When the calls of an event are due, as the program adds them up. -/
def due (now speed : T) : Nat → T
  | 0 => now
  | n + 1 => due now speed n + speed

/-- Each of the times comes after the call that it is for is due. -/
def Enough (now speed : T) (times : List T) : Prop :=
  ∀ (i : Nat) (h : i < times.length), due now speed (i + 1) < times[i]

theorem Enough.init {now speed start : T} {before : List T} (h : Enough start speed (before ++ [now])) :
    Enough start speed before ∧ due start speed (before.length + 1) < now := by
  refine ⟨fun i hi => ?_, ?_⟩
  · have hLast := h i (by rw [List.length_append]; omega)
    rwa [List.getElem_append_left hi] at hLast
  · have hLast := h before.length (by rw [List.length_append]; exact Nat.lt_succ_self _)
    rwa [List.getElem_concat_length rfl] at hLast

namespace Registration

variable {now : T} {r : Registration T}

/-- The event was called at least as often as it had to be. -/
def Served (r : Registration T) : Prop :=
  ∀ times, times.Sublist r.ticks → Enough r.now r.speed times → times.length ≤ r.calls

/-- The event has still to be looked at in the tick at this time. -/
def Behind (now : T) (r : Registration T) : Prop :=
  ∃ ticks, r.ticks = ticks ++ [now] ∧ Served { r with ticks }

theorem Served.ticked (h : r.Served) (now : T) : Behind now { r with ticks := r.ticks ++ [now] } :=
  ⟨r.ticks, rfl, h⟩

theorem Served.called (h : r.Served) : Served { r with calls := r.calls + 1 } :=
  fun times hTimes hEnough => Nat.le_succ_of_le (h times hTimes hEnough)

theorem Behind.called (h : r.Behind now) : Served { r with calls := r.calls + 1 } := by
  obtain ⟨ticks, hTicks, hServed⟩ := h
  intro times hTimes hEnough
  change times.Sublist r.ticks at hTimes
  rw [hTicks] at hTimes
  obtain hOld | ⟨before, rfl, hBefore⟩ := sublist_concat hTimes
  · exact Nat.le_succ_of_le (hServed times hOld hEnough)
  · rw [List.length_append]
    exact Nat.succ_le_succ (hServed before hBefore hEnough.init.1)

/-- The next call is not due yet. -/
theorem Behind.idle (h : r.Behind now) (hEarly : ¬due r.now r.speed (r.calls + 1) < now) : r.Served := by
  obtain ⟨ticks, hTicks, hServed⟩ := h
  intro times hTimes hEnough
  rw [hTicks] at hTimes
  obtain hOld | ⟨before, rfl, hBefore⟩ := sublist_concat hTimes
  · exact hServed times hOld hEnough
  · obtain ⟨hInit, hLast⟩ := hEnough.init
    have hCalls : before.length ≤ r.calls := hServed before hBefore hInit
    have hFewer : before.length ≠ r.calls := by
      intro hSame
      rw [hSame] at hLast
      exact hEarly hLast
    rw [List.length_append, List.length_singleton]
    omega

end Registration

end Due

section Invariant

variable {T : Type*} [Add T] [LT T]

/-- A registered event, and what the notes say of it. -/
structure Fits (event : TimeEvent T) (r : Registration T) : Prop where
  manager : event.manager = true
  active : r.unregistered = false
  speed : event.speed = r.speed
  lasttime : event.lasttime = due r.now r.speed r.calls
  lifetime : 0 < r.lifetime → event.lifetime = r.lifetime - r.calls
  left : 0 < r.lifetime → r.calls < r.lifetime

/-- What is always true, but for the events that are `late`. -/
structure Inv (late : EventId → Registration T → Prop) (s : Timer T) : Prop where
  registered : ∀ e ∈ s.timers, ∃ event r, s.events.lookup e = some event ∧ registration e s.log = some r ∧
    Fits event r ∧ (r.Served ∨ late e r)
  ended : ∀ e r, registration e s.log = some r → r.unregistered = false → 0 < r.lifetime →
    e ∈ s.timers ∨ r.calls = r.lifetime
  timersNodup : s.timers.Nodup
  execlistNodup : s.execlist.Nodup
  listed : s.changed = false → ∀ e ∈ s.timers, e ∈ s.execlist
  lawful : Lawful s.log

/-- What other parts of the program do leaves this as it is. -/
structure Kept (late : EventId → Registration T → Prop) (s next : Timer T) : Prop where
  inv : Inv late next
  execlist : next.execlist = s.execlist
  uncalled : ∀ e, Uncalled e s.log → Uncalled e next.log

variable {late : EventId → Registration T → Prop} {s next : Timer T} {e : EventId}

theorem create_kept (h : Inv late s) {event : TimeEvent T} (hStep : s.act (.create e event) = some next) :
    Kept late s next := by
  dsimp only [Timer.act] at hStep
  split at hStep
  · cases hStep
  case isFalse hFree =>
    obtain rfl := Option.some.inj hStep
    refine ⟨⟨fun other hOther => ?_, h.ended, h.timersNodup, h.execlistNodup, h.listed, h.lawful⟩, rfl, fun _ => id⟩
    obtain ⟨before, r, hBefore, hRest⟩ := h.registered other hOther
    refine ⟨before, r, ?_, hRest⟩
    have hDifferent : other ≠ e := by
      rintro rfl
      rw [hBefore] at hFree
      exact hFree rfl
    exact (AList.lookup_insert_ne hDifferent).trans hBefore

theorem mem_timers_insert {timers : List EventId} {other : EventId} :
    other ∈ (if e ∈ timers then timers else timers.orderedInsert (· ≤ ·) e) ↔ other = e ∨ other ∈ timers := by
  split
  case isTrue hMember =>
    refine ⟨.inr, fun h => h.elim (fun hSame => ?_) id⟩
    rwa [hSame]
  case isFalse => exact List.mem_orderedInsert _

theorem nodup_timers_insert {timers : List EventId} (h : timers.Nodup) :
    (if e ∈ timers then timers else timers.orderedInsert (· ≤ ·) e).Nodup := by
  split
  case isTrue => exact h
  case isFalse hMember => exact (List.perm_orderedInsert _ e timers).nodup_iff.mpr (List.nodup_cons.mpr ⟨hMember, h⟩)

theorem register_kept (h : Inv late s) {now : T} (hStep : s.register e now = some next) : Kept late s next := by
  obtain ⟨event, hEvent, hRegister⟩ := Option.bind_eq_some_iff.mp hStep
  split at hRegister
  · obtain rfl := Option.some.inj hRegister
    exact ⟨h, rfl, fun _ => id⟩
  · obtain rfl := Option.some.inj hRegister
    refine ⟨⟨fun other hOther => ?_, fun other r hr hActive hPositive => ?_, nodup_timers_insert h.timersNodup,
      h.execlistNodup, nofun, h.lawful⟩, rfl, fun _ => id⟩
    · by_cases hSame : e = other
      · subst hSame
        refine ⟨_, _, AList.lookup_insert _, if_pos rfl, ⟨rfl, rfl, rfl, rfl, fun _ => ?_, id⟩, .inl ?_⟩
        · exact (Int.sub_zero _).symm
        · intro times hTimes hEnough
          exact Nat.le_of_eq (congrArg List.length (List.sublist_nil.mp hTimes))
      · obtain hThis | hOther := mem_timers_insert.mp hOther
        · exact absurd hThis.symm hSame
        · obtain ⟨before, r, hBefore, hr, hRest⟩ := h.registered other hOther
          exact ⟨before, r, (AList.lookup_insert_ne (Ne.symm hSame)).trans hBefore, (if_neg hSame).trans hr, hRest⟩
    · by_cases hSame : e = other
      · exact .inl (mem_timers_insert.mpr (.inl hSame.symm))
      · have hBefore : registration other s.log = some r := (if_neg hSame).symm.trans hr
        exact (h.ended other r hBefore hActive hPositive).imp_left fun hOther => mem_timers_insert.mpr (.inr hOther)

theorem unregister_kept (h : Inv late s) (hStep : s.act (.unregister e) = some next) : Kept late s next := by
  obtain ⟨after, hAfter, rfl⟩ := Option.map_eq_some_iff.mp hStep
  obtain ⟨event, hEvent, hUnregister⟩ := Option.bind_eq_some_iff.mp hAfter
  obtain rfl := Option.some.inj hUnregister
  refine ⟨⟨fun other hOther => ?_, fun other r hr hActive hPositive => ?_, h.timersNodup.erase e, h.execlistNodup,
    nofun, h.lawful⟩, rfl, fun _ => id⟩
  · obtain ⟨hDifferent, hMember⟩ := (List.Nodup.mem_erase_iff h.timersNodup).mp hOther
    obtain ⟨before, r, hBefore, hr, hRest⟩ := h.registered other hMember
    refine ⟨before, r, (AList.lookup_insert_ne hDifferent).trans hBefore, ?_, hRest⟩
    show (registration other s.log).map _ = _
    rw [hr, Option.map_some, if_neg hDifferent.symm]
  · obtain ⟨before, hBefore, rfl⟩ := Option.map_eq_some_iff.mp hr
    by_cases hSame : e = other
    · rw [if_pos hSame] at hActive
      cases hActive
    · rw [if_neg hSame] at hActive hPositive ⊢
      refine (h.ended other before hBefore hActive hPositive).imp_left fun hOther => ?_
      exact (List.Nodup.mem_erase_iff h.timersNodup).mpr ⟨Ne.symm hSame, hOther⟩

theorem act_kept (h : Inv late s) {action : Action T} (hStep : s.act action = some next) : Kept late s next := by
  cases action with
  | create e event => exact create_kept h hStep
  | register e now => exact register_kept h hStep
  | unregister e => exact unregister_kept h hStep

theorem acts_kept (h : Inv late s) {actions : List (Action T)} (hStep : s.acts actions = some next) :
    Kept late s next := by
  induction actions generalizing s with
  | nil =>
      obtain rfl := Option.some.inj hStep
      exact ⟨h, rfl, fun _ => id⟩
  | cons action actions ih =>
      obtain ⟨between, hFirst, hRest⟩ := Option.bind_eq_some_iff.mp hStep
      have hBetween := act_kept h hFirst
      have hNext := ih hBetween.inv hRest
      exact ⟨hNext.inv, hNext.execlist.trans hBetween.execlist, fun e he => hNext.uncalled e (hBetween.uncalled e he)⟩

/-- The events that have still to be looked at in a tick. -/
def Late (now : T) (rest : List EventId) (e : EventId) (r : Registration T) : Prop := e ∈ rest ∧ r.Behind now

variable {now : T} {rest : List EventId} {event : TimeEvent T} {r : Registration T}

/-- An event that is not late any more. -/
theorem Inv.passed (h : Inv (Late now (e :: rest)) s)
    (hServed : e ∈ s.timers → ∀ r, registration e s.log = some r → r.Served) : Inv (Late now rest) s := by
  refine { h with registered := fun other hOther => ?_ }
  obtain ⟨event, r, hEvent, hr, hFits, hLate⟩ := h.registered other hOther
  refine ⟨event, r, hEvent, hr, hFits, ?_⟩
  obtain hDone | ⟨hMember, hBehind⟩ := hLate
  · exact .inl hDone
  · rcases List.mem_cons.mp hMember with rfl | hRest
    · exact .inl (hServed hOther r hr)
    · exact .inr ⟨hRest, hBehind⟩

/-- The due event may be unregistered before its callback is called. -/
theorem spend_inv (h : Inv (Late now (e :: rest)) s) (hMember : e ∈ s.timers) (hEvent : s.events.lookup e = some event)
    (hUncalled : Uncalled e s.log) (hStep : s.spend e event = some next) :
    Inv (Late now rest) (next.note (.called e)) ∧ next.execlist = s.execlist ∧ next.log = s.log := by
  obtain ⟨event', r, hEvent', hr, hFits, hLate⟩ := h.registered e hMember
  rw [hEvent] at hEvent'
  obtain rfl := Option.some.inj hEvent'
  have hServed : Registration.Served { r with calls := r.calls + 1 } :=
    hLate.elim Registration.Served.called fun hBehind => hBehind.2.called
  have hLawful : Lawful (.called e :: s.log) := ⟨⟨r, hr, hFits.active, hFits.left⟩, hUncalled, h.lawful⟩
  have hSelf : registration e (.called e :: s.log) = some { r with calls := r.calls + 1 } := by
    show (registration e s.log).map _ = _
    rw [hr, Option.map_some, if_pos rfl]
  have hOthers : ∀ {other}, other ≠ e → registration other (.called e :: s.log) = registration other s.log := by
    intro other hOther
    show (registration other s.log).map _ = _
    rw [funext fun r => if_neg hOther.symm, Option.map_id']
  have hSpent : 0 < r.lifetime → event.spend.lifetime = r.lifetime - (r.calls + 1 : Nat) := by
    intro hPositive
    have hLifetime := hFits.lifetime hPositive
    have hLeft := hFits.left hPositive
    have hOnce : event.spend.lifetime = event.lifetime - 1 := by
      refine if_neg ?_
      rw [hLifetime, forever]
      omega
    rw [hOnce, hLifetime]
    omega
  have hLate : ∀ {other r}, other ≠ e → r.Served ∨ Late now (e :: rest) other r → r.Served ∨ Late now rest other r :=
    fun hOther => Or.imp_right fun h => ⟨(List.mem_cons.mp h.1).resolve_left hOther, h.2⟩
  unfold Timer.spend at hStep
  dsimp only at hStep
  split at hStep
  case isTrue hExpired =>
    obtain ⟨event', hEvent', hUnregister⟩ := Option.bind_eq_some_iff.mp hStep
    obtain rfl := Option.some.inj hUnregister
    refine ⟨⟨fun other hOther => ?_, fun other r' hr' hActive hPositive => ?_, h.timersNodup.erase e, h.execlistNodup,
      nofun, hLawful⟩, rfl, rfl⟩
    · obtain ⟨hDifferent, hMember⟩ := (List.Nodup.mem_erase_iff h.timersNodup).mp hOther
      obtain ⟨before, r, hBefore, hr, hFits, hState⟩ := h.registered other hMember
      refine ⟨before, r, ?_, (hOthers hDifferent).trans hr, hFits, hLate hDifferent hState⟩
      show ((s.events.insert e event.spend).insert e _).lookup other = _
      rw [AList.lookup_insert_ne hDifferent, AList.lookup_insert_ne hDifferent, hBefore]
    · by_cases hSame : other = e
      · subst hSame
        have hBoth := hSelf.symm.trans hr'
        obtain rfl := Option.some.inj hBoth
        have hCalls := hSpent hPositive
        refine .inr ?_
        show ((r.calls + 1 : Nat) : Int) = r.lifetime
        omega
      · have hBefore := (hOthers hSame).symm.trans hr'
        refine (h.ended other r' hBefore hActive hPositive).imp_left fun hOther => ?_
        exact (List.Nodup.mem_erase_iff h.timersNodup).mpr ⟨hSame, hOther⟩
  case isFalse hMore =>
    obtain rfl := Option.some.inj hStep
    refine ⟨⟨fun other hOther => ?_, fun other r' hr' hActive hPositive => ?_, h.timersNodup, h.execlistNodup,
      h.listed, hLawful⟩, rfl, rfl⟩
    · by_cases hSame : other = e
      · subst hSame
        refine ⟨event.spend, _, AList.lookup_insert _, hSelf, ?_, .inl hServed⟩
        refine ⟨hFits.manager, hFits.active, hFits.speed, ?_, hSpent, fun hPositive => ?_⟩
        · show event.lasttime + event.speed = due r.now r.speed r.calls + r.speed
          rw [hFits.lasttime, hFits.speed]
        · have hCalls := hSpent hPositive
          have hLeft := hFits.left hPositive
          show ((r.calls + 1 : Nat) : Int) < r.lifetime
          omega
      · obtain ⟨before, r, hBefore, hr, hFits, hState⟩ := h.registered other hOther
        exact ⟨before, r, (AList.lookup_insert_ne hSame).trans hBefore, (hOthers hSame).trans hr, hFits,
          hLate hSame hState⟩
    · by_cases hSame : other = e
      · exact .inl (hSame ▸ hMember)
      · exact h.ended other r' ((hOthers hSame).symm.trans hr') hActive hPositive

/-- Nobody is late. -/
def Nobody (_ : EventId) (_ : Registration T) : Prop := False

theorem Inv.done (h : Inv (Late now []) s) : Inv Nobody s := by
  refine { h with registered := fun e he => ?_ }
  obtain ⟨event, r, hEvent, hr, hFits, hLate⟩ := h.registered e he
  exact ⟨event, r, hEvent, hr, hFits, hLate.imp_right fun hNever => absurd hNever.1 List.not_mem_nil⟩

theorem refresh_inv (h : Inv Nobody s) :
    Inv Nobody (if s.changed then { s with execlist := s.timers, changed := false } else s) ∧
      ∀ e ∈ s.timers, e ∈ (if s.changed then { s with execlist := s.timers, changed := false } else s).execlist := by
  split
  case isTrue =>
    exact ⟨⟨h.registered, h.ended, h.timersNodup, h.timersNodup, fun _ e he => he, h.lawful⟩, fun e he => he⟩
  case isFalse hSame => exact ⟨h, h.listed (Bool.eq_false_of_not_eq_true hSame)⟩

/-- When a tick begins, it has still to look at all that is registered. -/
theorem ticked_inv (h : Inv Nobody s) (now : T) (hListed : ∀ e ∈ s.timers, e ∈ s.execlist) :
    Inv (Late now s.execlist) (s.note (.ticked now)) := by
  refine ⟨fun e he => ?_, fun e r hr hActive hPositive => ?_, h.timersNodup, h.execlistNodup, h.listed, h.lawful⟩
  · obtain ⟨event, r, hEvent, hr, hFits, hState⟩ := h.registered e he
    refine ⟨event, { r with ticks := r.ticks ++ [now] }, hEvent, ?_, ?_, .inr ⟨hListed e he, ?_⟩⟩
    · show (registration e s.log).map _ = _
      rw [hr, Option.map_some]
    · exact ⟨hFits.manager, hFits.active, hFits.speed, hFits.lasttime, hFits.lifetime, hFits.left⟩
    · exact (hState.resolve_right id).ticked now
  · obtain ⟨before, hBefore, rfl⟩ := Option.map_eq_some_iff.mp hr
    exact h.ended e before hBefore hActive hPositive

theorem start_inv : Inv Nobody (.start : Timer T) where
  registered _ h := absurd h List.not_mem_nil
  ended _ _ h := by cases h
  timersNodup := .nil
  execlistNodup := .nil
  listed h := by cases h
  lawful := trivial

variable [DecidableLT T] {callbacks : EventId → List (Action T)}

theorem visit_inv (h : Inv (Late now (e :: rest)) s) (hNodup : (e :: rest).Nodup)
    (hUncalled : ∀ other ∈ e :: rest, Uncalled other s.log) (hStep : s.visit now callbacks e = some next) :
    Inv (Late now rest) next ∧ next.execlist = s.execlist ∧ ∀ other ∈ rest, Uncalled other next.log := by
  obtain ⟨hFirst, hRest⟩ := List.forall_mem_cons.mp hUncalled
  unfold Timer.visit at hStep
  split at hStep
  case isTrue hGone =>
    obtain rfl := Option.some.inj hStep
    exact ⟨h.passed fun hMember => absurd hMember hGone, rfl, hRest⟩
  case isFalse hMember =>
    rw [not_not] at hMember
    obtain ⟨event, hEvent, hVisit⟩ := Option.bind_eq_some_iff.mp hStep
    split at hVisit
    case isFalse hEarly =>
      obtain rfl := Option.some.inj hVisit
      refine ⟨h.passed fun _ r hr => ?_, rfl, hRest⟩
      obtain ⟨event', r', hEvent', hr', hFits, hLate⟩ := h.registered e hMember
      rw [hEvent] at hEvent'
      obtain rfl := Option.some.inj hEvent'
      rw [hr] at hr'
      obtain rfl := Option.some.inj hr'
      refine hLate.elim id fun hBehind => hBehind.2.idle ?_
      show ¬due r.now r.speed r.calls + r.speed < now
      rwa [← hFits.lasttime, ← hFits.speed]
    case isTrue hDue =>
      obtain ⟨called, hCalling, hCalled⟩ := Option.bind_eq_some_iff.mp hVisit
      obtain ⟨hCallingInv, hExeclist, hLog⟩ := spend_inv h hMember hEvent hFirst hCalling
      obtain ⟨after, hActs, hAfter⟩ := Option.bind_eq_some_iff.mp hCalled
      have hKept := acts_kept hCallingInv hActs
      have hLater : ∀ other ∈ rest, Uncalled other after.log := by
        intro other hOther
        refine hKept.uncalled other ⟨?_, hLog ▸ hRest other hOther⟩
        rintro rfl
        exact (List.nodup_cons.mp hNodup).1 hOther
      obtain ⟨event', hEvent', hEnd⟩ := Option.bind_eq_some_iff.mp hAfter
      split at hEnd
      · obtain rfl := Option.some.inj hEnd
        exact ⟨hKept.inv, hKept.execlist.trans hExeclist, hLater⟩
      case isFalse hManager =>
        obtain rfl := Option.some.inj hEnd
        refine ⟨{ hKept.inv with registered := fun other hOther => ?_ }, hKept.execlist.trans hExeclist, hLater⟩
        obtain ⟨before, r, hBefore, hr, hFits, hState⟩ := hKept.inv.registered other hOther
        refine ⟨before, r, ?_, hr, hFits, hState⟩
        have hDifferent : other ≠ e := by
          rintro rfl
          rw [hEvent'] at hBefore
          obtain rfl := Option.some.inj hBefore
          exact hManager hFits.manager
        exact (AList.lookup_erase_ne hDifferent).trans hBefore

theorem visits_inv (h : Inv (Late now rest) s) (hNodup : rest.Nodup) (hUncalled : ∀ other ∈ rest, Uncalled other s.log)
    (hStep : s.visits now callbacks rest = some next) : Inv (Late now []) next := by
  induction rest generalizing s with
  | nil => exact Option.some.inj hStep ▸ h
  | cons e rest ih =>
      obtain ⟨between, hVisit, hRest⟩ := Option.bind_eq_some_iff.mp hStep
      obtain ⟨hBetween, -, hLater⟩ := visit_inv h hNodup hUncalled hVisit
      exact ih hBetween (List.nodup_cons.mp hNodup).2 hLater hRest

theorem tick_inv (h : Inv Nobody s) (hStep : s.tick now callbacks = some next) : Inv Nobody next := by
  unfold Timer.tick at hStep
  obtain ⟨hRefreshed, hListed⟩ := refresh_inv h
  dsimp only at hStep
  generalize hSame : (if s.changed = true then _ else s) = fresh at hStep hRefreshed hListed
  have hTimers : fresh.timers = s.timers := by
    rw [← hSame]
    split
    · rfl
    · rfl
  rw [← hTimers] at hListed
  exact (visits_inv (ticked_inv hRefreshed now hListed) hRefreshed.execlistNodup (fun _ _ => trivial) hStep).done

theorem happen_inv (h : Inv Nobody s) {happening : Happening T} (hStep : happen s happening = some next) :
    Inv Nobody next := by
  cases happening with
  | act action => exact (act_kept h hStep).inv
  | tick now callbacks => exact tick_inv h hStep

end Invariant

section Runs

variable {T : Type*} [Add T] [LT T]

/-- How often events have been called. The notes are told from the last one on; `later` are those since a
registration, or since an event was unregistered. -/
structure Timely (s : Timer T) : Prop where
  atMost : ∀ later earlier e (k : Int) now speed, s.log = later ++ .registered e k now speed :: earlier → 0 < k →
    (∀ note ∈ later, note.registers e = false) → later.countP (·.calls e) ≤ k
  exactly : ∀ later earlier e (k : Int) now speed, s.log = later ++ .registered e k now speed :: earlier → 0 < k →
    (∀ note ∈ later, note.registers e = false ∧ note.unregisters e = false) →
    (∃ ticks, ticks.Sublist (times later) ∧ ticks.length = k ∧ Enough now speed ticks) →
    later.countP (·.calls e) = k
  once : ∀ later middle earlier e, s.log = later ++ .called e :: (middle ++ .called e :: earlier) →
    ∃ now, .ticked now ∈ middle
  never : ∀ later earlier e, s.log = later ++ .unregistered e :: earlier →
    (∀ note ∈ later, note.registers e = false) → ∀ note ∈ later, note.calls e = false

theorem Inv.timely {s : Timer T} (h : Inv Nobody s) : Timely s := by
  have hAtMost : ∀ later earlier e (k : Int) now speed, s.log = later ++ .registered e k now speed :: earlier → 0 < k →
      (∀ note ∈ later, note.registers e = false) → later.countP (·.calls e) ≤ k := by
    intro later earlier e k now speed hLog hPositive hLater
    have hLawful := h.lawful
    rw [hLog] at hLawful
    exact hLawful.calls_le (registration_later hLater) hPositive
  refine ⟨hAtMost, ?_, fun later middle earlier e hLog => ?_, fun later earlier e hLog hLater => ?_⟩
  · rintro later earlier e k now speed hLog hPositive hLater ⟨ticks, hTicks, hLength, hEnough⟩
    have hRegistered : ∀ note ∈ later, note.registers e = false := fun note hNote => (hLater note hNote).1
    have hActive : later.any (·.unregisters e) = false := by
      rw [List.any_eq_false]
      exact fun note hNote => Bool.eq_false_iff.mp (hLater note hNote).2
    have hr : registration e s.log = some ⟨k, now, speed, later.countP (·.calls e), times later, false⟩ := by
      rw [hLog, registration_later hRegistered, hActive]
    obtain hMember | hCalls := h.ended e _ hr rfl hPositive
    · obtain ⟨event, r, -, hr', -, hState⟩ := h.registered e hMember
      rw [hr] at hr'
      obtain rfl := Option.some.inj hr'
      have hServed : ticks.length ≤ later.countP (·.calls e) := hState.resolve_right id ticks hTicks hEnough
      have hLess := hAtMost later earlier e k now speed hLog hPositive hRegistered
      omega
    · exact hCalls
  · have hLawful := h.lawful
    rw [hLog] at hLawful
    exact hLawful.suffix.2.1.ticked
  · have hLawful := h.lawful
    rw [hLog] at hLawful
    exact hLawful.never hLater

end Runs

end Etheos.Timers
