import Mathlib.Tactic.IntervalCases
import Etheos.Wedding.Wedding

/-! What the calls of a wedding come to, which call each other. -/
namespace Etheos.Weddings

open General
open Guilds (Name)

namespace Scene

section Outcomes

variable (s : Scene)

/-- The couple and the priest are on the map. -/
def Present : Prop := s.getPartner1.isSome = true ∧ s.getPartner2.isSome = true ∧ s.wedding.priest = true

instance : Decidable s.Present := inferInstanceAs (Decidable (_ ∧ _))

/-- The wedding has just changed its state. -/
def enter (state : Nat) : Scene :=
  { s with wedding := { s.wedding with state, tick := 0, notes := .entered state :: s.wedding.notes } }

def vowed : Scene :=
  let p1 := s.wedding.partner1
  let p2 := s.wedding.partner2
  let s := s.modifyCharacter p1 ({ · with partner := p2 })
  let s := s.modifyCharacter p2 ({ · with partner := p1 })
  let s := s.modifyCharacter p1 ({ · with fiance := ∅ })
  s.modifyCharacter p2 ({ · with fiance := ∅ })

/-- What `marry` does to a couple that is there. -/
def married : Scene := (s.vowed.give s.wedding.partner1).give s.wedding.partner2

/-- What `NextState` comes to. -/
def advance : Scene :=
  if s.Present then
    if s.wedding.state = 12 then (s.enter 13).errorOut
    else if s.wedding.state = 7 then (s.enter 8).married
    else s.enter (s.wedding.state + 1)
  else if s.wedding.state < 8 then s.errorOut
  else (s.enter 13).errorOut

def counted : Scene := { s with wedding := { s.wedding with tick := s.wedding.tick + 1 } }

end Outcomes

section Calls

variable {s : Scene}

@[simp] theorem present_enter (state : Nat) : (s.enter state).Present ↔ s.Present := Iff.rfl

@[simp] theorem present_counted : s.counted.Present ↔ s.Present := Iff.rfl

theorem not_present : ¬s.Present ↔
    s.getPartner1.isNone = true ∨ s.getPartner2.isNone = true ∨ s.wedding.priest = false := by
  unfold Present
  rw [not_and_or, not_and_or, Bool.not_eq_true, Bool.not_eq_true, Bool.not_eq_true,
    Option.isSome_eq_false_iff, Option.isSome_eq_false_iff]

theorem sayNames_of_present (h : s.Present) : s.sayNames = some s := by
  obtain ⟨self, hSelf⟩ := Option.isSome_iff_exists.mp h.1
  obtain ⟨other, hOther⟩ := Option.isSome_iff_exists.mp h.2.1
  unfold sayNames
  rw [hSelf, hOther]
  rfl

theorem marry_of_present (h : s.Present) : s.marry = some s.married := by
  obtain ⟨self, hSelf⟩ := Option.isSome_iff_exists.mp h.1
  obtain ⟨other, hOther⟩ := Option.isSome_iff_exists.mp h.2.1
  unfold marry
  rw [hSelf, hOther]
  rfl

theorem changeState_eq {state : Nat} (hState : state ≠ 0) (tick : Scene → Option Scene) :
    s.changeState (·.tickOnce tick) state = (s.enter state).tickState tick := by
  unfold changeState tickOnce
  dsimp only
  rw [if_pos hState]
  rfl

/-- Where a state begins, nothing else is called. -/
theorem tickState_begun (h : s.Present) (hTick : s.wedding.tick = 0) (hFirst : 0 < s.wedding.state)
    (hLast : s.wedding.state ≤ 12) (hMarry : s.wedding.state ≠ 8) (tick : Scene → Option Scene) :
    s.tickState tick = some s := by
  unfold tickState
  rw [hTick]
  generalize hState : s.wedding.state = state at hFirst hLast hMarry
  have hSaid := sayNames_of_present h
  interval_cases state
  case «8» => exact absurd rfl hMarry
  all_goals simp [hSaid, hTick]

theorem give_wedding (s : Scene) (name : Name) :
    ∃ requests asked, (s.give name).wedding = { s.wedding with requests, asked } := by
  unfold give
  split
  · exact ⟨_, _, rfl⟩
  · exact ⟨_, _, rfl⟩

/-- At most the requests change where the rings are given. -/
theorem married_wedding (s : Scene) : ∃ requests asked, s.married.wedding = { s.wedding with requests, asked } := by
  obtain ⟨requests, asked, hFirst⟩ := give_wedding s.vowed s.wedding.partner1
  obtain ⟨requests', asked', hSecond⟩ := give_wedding (s.vowed.give s.wedding.partner1) s.wedding.partner2
  refine ⟨requests', asked', hSecond.trans ?_⟩
  rw [hFirst]
  rfl

theorem tickState_marry (h : s.Present) (hTick : s.wedding.tick = 0) (hState : s.wedding.state = 8)
    (tick : Scene → Option Scene) : s.tickState tick = some s.married := by
  obtain ⟨requests, asked, hSame⟩ := married_wedding s
  unfold tickState
  simp [hTick, hState, marry_of_present h, hSame]

theorem tickState_last (hTick : s.wedding.tick = 0) (hState : s.wedding.state = 13)
    (tick : Scene → Option Scene) : s.tickState tick = some s.errorOut := by
  unfold tickState
  rw [hTick, hState]
  rfl

theorem check_eq (tick : Scene → Option Scene) : s.check (·.tickOnce tick) =
    if s.Present then some (true, s)
    else some (false, if s.wedding.state < 8 then s.errorOut else (s.enter 13).errorOut) := by
  unfold check
  by_cases h : s.Present
  · rw [if_neg (mt not_present.mpr (not_not_intro h)), if_pos h]
  · rw [if_pos (not_present.mp h), if_neg h, changeState_eq (by decide), tickState_last rfl rfl]
    split
    · rfl
    · rfl

theorem checked_eq (tick : Scene → Option Scene) (f : Scene → Option Scene) (hState : s.wedding.state < 8) :
    s.checked (·.tickOnce tick) f = if s.Present then f s else some s.errorOut := by
  unfold checked
  rw [check_eq]
  split
  · rfl
  · simp

theorem nextState_eq (hLast : s.wedding.state ≤ 12) (tick : Scene → Option Scene) :
    s.nextState (·.tickOnce tick) = some s.advance := by
  unfold nextState advance
  rw [check_eq]
  by_cases h : s.Present
  · rw [if_pos h, if_pos h]
    change s.changeState (·.tickOnce tick) (s.wedding.state + 1) = _
    rw [changeState_eq (Nat.succ_ne_zero _)]
    by_cases hFinish : s.wedding.state = 12
    · rw [if_pos hFinish, hFinish]
      exact tickState_last (s := s.enter 13) rfl rfl tick
    · rw [if_neg hFinish]
      by_cases hMarry : s.wedding.state = 7
      · rw [if_pos hMarry, hMarry]
        exact tickState_marry (s := s.enter 8) h rfl rfl tick
      · rw [if_neg hMarry]
        refine tickState_begun (s := s.enter (s.wedding.state + 1)) h rfl (Nat.succ_pos _) ?_ ?_ tick
        · exact Nat.lt_of_le_of_ne hLast hFinish
        · exact fun hEight => hMarry (Nat.succ.inj hEight)
  · rw [if_neg h, if_neg h]
    split
    · rfl
    · rfl

/-- What a tick comes to. -/
inductive Ticked (s : Scene) : Scene → Prop
  | idle (hState : s.wedding.state = 0) : Ticked s s.stopTimer
  | counted (hState : s.wedding.state ≠ 0) : Ticked s s.counted
  | failed (hState : s.wedding.state ≠ 0) : Ticked s s.counted.errorOut
  | advanced (hState : s.wedding.state ≠ 0) (hOne : s.wedding.state ≠ 4) (hTwo : s.wedding.state ≠ 6)
      (hMarry : s.wedding.state = 7 → s.wedding.tick = 0) : Ticked s s.counted.advance

theorem tick_idle (hState : s.wedding.state = 0) : s.tick = some s.stopTimer := by
  unfold tick tickWithin tickOnce
  rw [if_neg (not_not_intro hState)]
  show s.tickState _ = _
  unfold tickState
  simp only [hState]

theorem tick_counts (hState : s.wedding.state ≠ 0) :
    s.tick = s.counted.tickState (·.tickOnce (tickWithin 0)) := by
  unfold tick tickWithin tickOnce
  dsimp only
  rw [if_pos hState]
  rfl

/-- The tick that asks one of the couple, or says what was answered. -/
theorem checked_ticked (hState : s.wedding.state ≠ 0) (hEarly : s.wedding.state < 8) {f : Scene → Option Scene}
    (hf : s.Present → f s.counted = some s.counted) :
    ∃ next, s.counted.checked (·.tickOnce (tickWithin 0)) f = some next ∧ s.Ticked next := by
  rw [checked_eq (s := s.counted) _ _ hEarly]
  by_cases h : s.Present
  · exact ⟨s.counted, (if_pos h).trans (hf h), .counted hState⟩
  · exact ⟨s.counted.errorOut, if_neg h, .failed hState⟩

theorem asks_partner1 (h : s.Present) : (do
    let _ ← s.getPartner1
    return s) = some s := by
  obtain ⟨self, hSelf⟩ := Option.isSome_iff_exists.mp h.1
  rw [hSelf]
  rfl

theorem asks_partner2 (h : s.Present) (f : Option Scene) : (do
    let _ ← s.getPartner2
    f) = f := by
  obtain ⟨self, hSelf⟩ := Option.isSome_iff_exists.mp h.2.1
  rw [hSelf]
  rfl

/-- The tick in which the last answer is repeated, and the state 8 begins. -/
theorem tickState_answered (h : s.Present) (hSeven : s.wedding.state = 7) (hFirst : s.wedding.tick = 0) :
    s.counted.tickState (·.tickOnce (tickWithin 0)) = some s.counted.advance := by
  have hState : s.counted.wedding.state = 7 := hSeven
  have hOne : s.counted.wedding.tick = 1 := by
    show s.wedding.tick + 1 = 1
    omega
  unfold tickState
  simp only [hState, if_pos hOne]
  rw [checked_eq (s := s.counted) _ _ (by omega)]
  refine (if_pos h).trans ((asks_partner2 (s := s.counted) h _).trans ?_)
  exact nextState_eq (s := s.counted) (by omega) _

theorem tick_answered (h : s.Present) (hSeven : s.wedding.state = 7) (hFirst : s.wedding.tick = 0) :
    s.tick = some s.counted.advance := by
  rw [tick_counts (by omega), tickState_answered h hSeven hFirst]

/-- A tick is never the first of a state, and finds everybody that it needs. -/
theorem tick_ticked (hLast : s.wedding.state ≤ 12) (hTicks : s.wedding.state ≠ 0 → 0 ≤ s.wedding.tick) :
    ∃ next, s.tick = some next ∧ s.Ticked next := by
  by_cases hState : s.wedding.state = 0
  · exact ⟨s.stopTimer, tick_idle hState, .idle hState⟩
  rw [tick_counts hState]
  have hLater : s.counted.wedding.tick ≠ 0 := by
    have := hTicks hState
    show s.wedding.tick + 1 ≠ 0
    omega
  -- Most states go on when they have lasted for some time.
  have hWait : ∀ n : Int, s.wedding.state ≠ 4 → s.wedding.state ≠ 6 → s.wedding.state ≠ 7 →
      ∃ next, (if s.counted.wedding.tick = n then s.counted.nextState (·.tickOnce (tickWithin 0))
        else some s.counted) = some next ∧ s.Ticked next := by
    intro n hOne hTwo hSeven
    split
    · exact ⟨_, nextState_eq (s := s.counted) hLast _, .advanced hState hOne hTwo fun h => absurd h hSeven⟩
    · exact ⟨_, rfl, .counted hState⟩
  -- The others wait for an answer, but not for ever.
  have hAnswer : ∀ asks : Scene → Option Scene, s.wedding.state < 8 → (s.Present → asks s.counted = some s.counted) →
      ∃ next, (if s.counted.wedding.tick = 3 then s.counted.checked (·.tickOnce (tickWithin 0)) asks
        else if s.counted.wedding.tick = 13 then some s.counted.errorOut
        else some s.counted) = some next ∧ s.Ticked next := by
    intro asks hEarly hAsks
    split
    · exact checked_ticked hState hEarly hAsks
    · split
      · exact ⟨_, rfl, .failed hState⟩
      · exact ⟨_, rfl, .counted hState⟩
  unfold tickState
  generalize hCounted : s.counted.wedding.state = state
  have hCase : s.wedding.state = state := hCounted
  rw [hCase] at hLast hState hWait hAnswer
  interval_cases state
  case «0» => exact absurd rfl hState
  case «1» => exact hWait 20 (by decide) (by decide) (by decide)
  case «2» =>
    simp only [if_neg hLater]
    exact hWait 6 (by decide) (by decide) (by decide)
  case «3» => exact hWait 6 (by decide) (by decide) (by decide)
  case «4» =>
    simp only [if_neg hLater]
    exact hAnswer _ (by decide) fun h => asks_partner1 (s := s.counted) h
  case «5» =>
    by_cases hOne : s.counted.wedding.tick = 1
    · simp only [if_pos hOne]
      rw [checked_eq (s := s.counted) _ _ (by omega)]
      by_cases h : s.Present
      · refine ⟨s.counted, ?_, .counted (by omega)⟩
        have hAsks : (do
            let _ ← s.counted.getPartner1
            return s.counted) = some s.counted := asks_partner1 h
        rw [if_pos (show s.counted.Present from h), hAsks]
        exact if_neg (by omega)
      · refine ⟨s.counted.errorOut, ?_, .failed (by omega)⟩
        rw [if_neg (show ¬s.counted.Present from h)]
        rfl
    · simp only [if_neg hOne]
      exact hWait 7 (by decide) (by decide) (by decide)
  case «6» =>
    simp only [if_neg hLater]
    exact hAnswer _ (by decide) fun h => asks_partner2 (s := s.counted) h _
  case «7» =>
    by_cases hOne : s.counted.wedding.tick = 1
    · simp only [if_pos hOne]
      rw [checked_eq (s := s.counted) _ _ (by omega)]
      have hTick : s.wedding.tick = 0 := by
        change s.wedding.tick + 1 = 1 at hOne
        omega
      by_cases h : s.Present
      · refine ⟨s.counted.advance, ?_, .advanced (by omega) (by omega) (by omega) fun _ => hTick⟩
        refine (if_pos h).trans ((asks_partner2 (s := s.counted) h _).trans ?_)
        exact nextState_eq (s := s.counted) (by omega) _
      · exact ⟨_, if_neg h, .failed (by omega)⟩
    · exact ⟨s.counted, if_neg hOne, .counted (by omega)⟩
  case «8» =>
    simp only [if_neg hLater]
    exact hWait 6 (by decide) (by decide) (by decide)
  case «9» => exact hWait 6 (by decide) (by decide) (by decide)
  case «10» => exact hWait 5 (by decide) (by decide) (by decide)
  case «11» =>
    simp only [if_neg hLater]
    exact hWait 1 (by decide) (by decide) (by decide)
  case «12» =>
    simp only [if_neg hLater]
    exact hWait 5 (by decide) (by decide) (by decide)

end Calls

end Scene

end Etheos.Weddings
