import Mathlib.Algebra.Group.Nat.Defs
import Mathlib.Tactic.Common

/-! Runs of a system that takes one step for every event, and properties of all
states of a run. An event that the system cannot take ends the run. -/
namespace General

variable {σ ε : Type*} (step : σ → ε → Option σ)

def run : σ → List ε → Option σ
  | s, [] => some s
  | s, event :: events => (step s event).bind (run · events)

/-- The property holds in every state of the run. -/
def Always (P : σ → Prop) (s : σ) (events : List ε) : Prop :=
  ∀ done s', done <+: events → run step s done = some s' → P s'

/-- No step that the run takes is a bad one. -/
def Avoids (bad : σ → ε → Prop) (s : σ) (events : List ε) : Prop :=
  ∀ done event s', done ++ [event] <+: events → run step s done = some s' →
    (step s' event).isSome → ¬bad s' event

variable {step} {s : σ}

theorem run_cons {event : ε} {next : σ} (h : step s event = some next) (events : List ε) :
    run step s (event :: events) = run step next events := by
  simp [run, h]

theorem run_append (events more : List ε) (s : σ) :
    run step s (events ++ more) = (run step s events).bind (run step · more) := by
  induction events generalizing s with
  | nil => rfl
  | cons event events ih =>
      show (step s event).bind _ = ((step s event).bind _).bind _
      rw [Option.bind_assoc]
      exact Option.bind_congr fun next _ => ih next

/-- A number that grows by one at most is met on the way. -/
theorem exists_split {f : σ → ℕ} (hStep : ∀ s event next, step s event = some next → f next ≤ f s + 1)
    {events : List ε} {next : σ} {n : ℕ} (hRun : run step s events = some next) (hFrom : f s ≤ n) (hTo : n ≤ f next) :
    ∃ before after between, events = before ++ after ∧ run step s before = some between ∧
      run step between after = some next ∧ f between = n := by
  induction events generalizing s with
  | nil =>
      obtain rfl := Option.some.inj hRun
      exact ⟨[], [], s, rfl, rfl, rfl, Nat.le_antisymm hFrom hTo⟩
  | cons event events ih =>
      obtain hSame | hLess := Nat.eq_or_lt_of_le hFrom
      · exact ⟨[], event :: events, s, rfl, rfl, hRun, hSame⟩
      · obtain ⟨later, hFirst, hRest⟩ := Option.bind_eq_some_iff.mp hRun
        obtain ⟨before, after, between, rfl, hBefore, hAfter, hBetween⟩ :=
          ih hRest (Nat.le_trans (hStep s event later hFirst) hLess)
        exact ⟨event :: before, after, between, rfl, (run_cons hFirst before).trans hBefore, hAfter, hBetween⟩

theorem always_nil {P : σ → Prop} : Always step P s [] ↔ P s := by
  constructor
  · intro h
    exact h [] s List.nil_prefix rfl
  · intro h done s' hDone hRun
    obtain rfl := List.prefix_nil.mp hDone
    obtain rfl := Option.some.inj hRun
    exact h

theorem always_cons {P : σ → Prop} {event : ε} {next : σ} (h : step s event = some next)
    (events : List ε) :
    Always step P s (event :: events) ↔ P s ∧ Always step P next events := by
  constructor
  · intro hAll
    refine ⟨hAll [] s List.nil_prefix rfl, fun done s' hDone hRun => ?_⟩
    exact hAll (event :: done) s' (List.cons_prefix_cons.mpr ⟨rfl, hDone⟩)
      ((run_cons h done).trans hRun)
  · rintro ⟨hFirst, hRest⟩ done s' hDone hRun
    rcases List.prefix_cons_iff.mp hDone with rfl | ⟨rest, rfl, hPrefix⟩
    · obtain rfl := Option.some.inj hRun
      exact hFirst
    · exact hRest rest s' hPrefix ((run_cons h rest).symm.trans hRun)

theorem Always.split {P : σ → Prop} {before after : List ε} {between : σ} (h : Always step P s (before ++ after))
    (hRun : run step s before = some between) : Always step P s before ∧ Always step P between after := by
  refine ⟨fun done s' hDone hHere => h done s' (hDone.trans (List.prefix_append before after)) hHere, ?_⟩
  intro done s' hDone hHere
  refine h (before ++ done) s' ((List.prefix_append_right_inj before).mpr hDone) ?_
  rw [run_append, hRun]
  exact hHere

/-- A run ends in front of an event that cannot be taken. -/
theorem always_blocked {P : σ → Prop} {event : ε} (h : step s event = none)
    (events : List ε) : Always step P s (event :: events) ↔ P s := by
  constructor
  · intro hAll
    exact hAll [] s List.nil_prefix rfl
  · intro hFirst done s' hDone hRun
    rcases List.prefix_cons_iff.mp hDone with rfl | ⟨rest, rfl, _⟩
    · obtain rfl := Option.some.inj hRun
      exact hFirst
    · simp [run, h] at hRun

instance alwaysDecidable (P : σ → Prop) [∀ s, Decidable (P s)] :
    ∀ (events : List ε) (s : σ), Decidable (Always step P s events)
  | [], _ => decidable_of_iff _ always_nil.symm
  | event :: events, s =>
      match h : step s event with
      | none => decidable_of_iff _ (always_blocked h events).symm
      | some next =>
          have := alwaysDecidable P events next
          decidable_of_iff _ (always_cons h events).symm

theorem avoids_nil {bad : σ → ε → Prop} : Avoids step bad s [] := by
  intro done event s' hDone
  simp at hDone

theorem avoids_cons {bad : σ → ε → Prop} {event : ε} {next : σ} (h : step s event = some next)
    (events : List ε) :
    Avoids step bad s (event :: events) ↔ ¬bad s event ∧ Avoids step bad next events := by
  constructor
  · intro hAll
    refine ⟨hAll [] event s (by simp) rfl (by simp [h]), fun done last s' hDone hRun hSome => ?_⟩
    exact hAll (event :: done) last s' (List.cons_prefix_cons.mpr ⟨rfl, hDone⟩)
      ((run_cons h done).trans hRun) hSome
  · rintro ⟨hFirst, hRest⟩ done last s' hDone hRun hSome
    cases done with
    | nil =>
        obtain ⟨rfl, _⟩ := List.cons_prefix_cons.mp hDone
        obtain rfl := Option.some.inj hRun
        exact hFirst
    | cons first done =>
        obtain ⟨rfl, hPrefix⟩ := List.cons_prefix_cons.mp hDone
        exact hRest done last s' hPrefix ((run_cons h done).symm.trans hRun) hSome

theorem avoids_blocked {bad : σ → ε → Prop} {event : ε} (h : step s event = none)
    (events : List ε) : Avoids step bad s (event :: events) := by
  intro done last s' hDone hRun hSome
  cases done with
  | nil =>
      obtain ⟨rfl, _⟩ := List.cons_prefix_cons.mp hDone
      obtain rfl := Option.some.inj hRun
      simp [h] at hSome
  | cons first done =>
      obtain ⟨rfl, _⟩ := List.cons_prefix_cons.mp hDone
      simp [run, h] at hRun

instance avoidsDecidable (bad : σ → ε → Prop) [∀ s event, Decidable (bad s event)] :
    ∀ (events : List ε) (s : σ), Decidable (Avoids step bad s events)
  | [], _ => isTrue avoids_nil
  | event :: events, s =>
      match h : step s event with
      | none => isTrue (avoids_blocked h events)
      | some next =>
          have := avoidsDecidable bad events next
          decidable_of_iff _ (avoids_cons h events).symm

theorem avoids_of_forall {bad : σ → ε → Prop} {events : List ε}
    (h : ∀ event ∈ events, ∀ s, ¬bad s event) : Avoids step bad s events :=
  fun _ event s' hDone _ _ => h event (hDone.subset (by simp)) s'

/-- An invariant that all steps but the bad ones keep holds along every run
that avoids the bad steps. -/
theorem always_of_avoids {Inv : σ → Prop} {bad : σ → ε → Prop}
    (hKeep : ∀ s event next, Inv s → ¬bad s event → step s event = some next → Inv next)
    (h : Inv s) {events : List ε} (hAvoids : Avoids step bad s events) :
    Always step Inv s events := by
  induction events generalizing s with
  | nil => exact always_nil.mpr h
  | cons event events ih =>
      cases hStep : step s event with
      | none => exact (always_blocked hStep events).mpr h
      | some next =>
          obtain ⟨hGood, hRest⟩ := (avoids_cons hStep events).mp hAvoids
          exact (always_cons hStep events).mpr
            ⟨h, ih (hKeep s event next h hGood hStep) hRest⟩

/-- What avoids the one kind of steps avoids the other kind, where an invariant
makes sure of it at each step. -/
theorem avoids_of_avoids {Inv : σ → Prop} {bad bad' : σ → ε → Prop}
    (hKeep : ∀ s event next, Inv s → ¬bad s event → step s event = some next → Inv next)
    (hGood : ∀ s event, Inv s → ¬bad s event → ¬bad' s event) (h : Inv s) {events : List ε}
    (hAvoids : Avoids step bad s events) : Avoids step bad' s events := by
  intro done event s' hDone hRun hSome
  have hHere : Inv s' :=
    always_of_avoids hKeep h hAvoids done s' ((List.prefix_append done [event]).trans hDone) hRun
  exact hGood s' event hHere (hAvoids done event s' hDone hRun hSome)

/-- An invariant that all steps keep holds along every run. -/
theorem always_of_invariant {Inv : σ → Prop}
    (hKeep : ∀ s event next, Inv s → step s event = some next → Inv next) (h : Inv s)
    (events : List ε) : Always step Inv s events := by
  have hAvoids : Avoids step (fun _ _ => False) s events := fun _ _ _ _ _ _ => id
  exact always_of_avoids (fun s event next hInv _ => hKeep s event next hInv) h hAvoids

theorem Always.mono {P Q : σ → Prop} (hImp : ∀ s, P s → Q s) {events : List ε}
    (h : Always step P s events) : Always step Q s events :=
  fun done s' hDone hRun => hImp s' (h done s' hDone hRun)

/-- A step may rely on what is known of the state that it leads to. -/
theorem Always.carry {Inv P : σ → Prop}
    (hKeep : ∀ s event next, Inv s → P next → step s event = some next → Inv next) (h : Inv s) {events : List ε}
    (hAlways : Always step P s events) : Always step Inv s events := by
  induction events generalizing s with
  | nil => exact always_nil.mpr h
  | cons event events ih =>
      cases hStep : step s event with
      | none => exact (always_blocked hStep events).mpr h
      | some next =>
          obtain ⟨-, hRest⟩ := (always_cons hStep events).mp hAlways
          have hNext : P next := hRest [] next List.nil_prefix rfl
          exact (always_cons hStep events).mpr ⟨h, ih (hKeep s event next h hNext hStep) hRest⟩

/-- All events of the run are met in states with the property. The last one need not be taken. -/
def Meets (step : σ → ε → Option σ) (P : σ → ε → Prop) (s : σ) (events : List ε) : Prop :=
  ∀ done event s', done ++ [event] <+: events → run step s done = some s' → P s' event

theorem meets_of_forall {P : σ → ε → Prop} {events : List ε} (h : ∀ event ∈ events, ∀ s, P s event) :
    Meets step P s events :=
  fun _ event s' hDone _ => h event (hDone.subset (by simp)) s'

theorem Always.meets_iff {Inv : σ → Prop} {P Q : σ → ε → Prop} {events : List ε} (h : Always step Inv s events)
    (hIff : ∀ s event, Inv s → (P s event ↔ Q s event)) : Meets step P s events ↔ Meets step Q s events := by
  have hState : ∀ done event s', done ++ [event] <+: events → run step s done = some s' → Inv s' :=
    fun done event s' hDone hRun => h done s' ((List.prefix_append done [event]).trans hDone) hRun
  constructor
  · intro hMeets done event s' hDone hRun
    exact (hIff s' event (hState done event s' hDone hRun)).mp (hMeets done event s' hDone hRun)
  · intro hMeets done event s' hDone hRun
    exact (hIff s' event (hState done event s' hDone hRun)).mpr (hMeets done event s' hDone hRun)

/-- Where every bad step breaks the property as well, the runs that have it throughout are those
that avoid the bad steps. Only runs that avoid other steps as well may be of interest. -/
theorem always_iff_avoids_within {Inv P : σ → Prop} {bad beyond : σ → ε → Prop}
    (hProperty : ∀ s, Inv s → P s)
    (hKeep : ∀ s event next, Inv s → ¬beyond s event → ¬bad s event → step s event = some next → Inv next)
    (hBreak : ∀ s event next, Inv s → ¬beyond s event → bad s event → step s event = some next → ¬P next)
    (h : Inv s) {events : List ε} (hWithin : Avoids step beyond s events) :
    Always step P s events ↔ Avoids step bad s events := by
  induction events generalizing s with
  | nil => exact iff_of_true (always_nil.mpr (hProperty s h)) avoids_nil
  | cons event events ih =>
      cases hStep : step s event with
      | none => exact iff_of_true ((always_blocked hStep events).mpr (hProperty s h)) (avoids_blocked hStep events)
      | some next =>
          obtain ⟨hHere, hRest⟩ := (avoids_cons hStep events).mp hWithin
          rw [always_cons hStep, avoids_cons hStep]
          constructor
          · rintro ⟨-, hAlways⟩
            have hNext : P next := hAlways [] next List.nil_prefix rfl
            have hGood : ¬bad s event := fun hBad => hBreak s event next h hHere hBad hStep hNext
            exact ⟨hGood, (ih (hKeep s event next h hHere hGood hStep) hRest).mp hAlways⟩
          · rintro ⟨hGood, hAvoids⟩
            exact ⟨hProperty s h, (ih (hKeep s event next h hHere hGood hStep) hRest).mpr hAvoids⟩

theorem always_iff_avoids {Inv P : σ → Prop} {bad : σ → ε → Prop}
    (hProperty : ∀ s, Inv s → P s)
    (hKeep : ∀ s event next, Inv s → ¬bad s event → step s event = some next → Inv next)
    (hBreak : ∀ s event next, Inv s → bad s event → step s event = some next → ¬P next)
    (h : Inv s) (events : List ε) : Always step P s events ↔ Avoids step bad s events := by
  have hWithin : Avoids step (fun _ _ => False) s events := fun _ _ _ _ _ _ => id
  exact always_iff_avoids_within hProperty (fun s event next hInv _ => hKeep s event next hInv)
    (fun s event next hInv _ => hBreak s event next hInv) h hWithin

end General
