import Etheos.Quest.ActionList
import Mathlib.Data.List.Basic
import Mathlib.Data.List.Induction

/-! The branches of a condition. They stand in the list of actions one behind the
other, and `last_cond` is all that the loop keeps of a condition. -/
namespace Etheos.EOPlus

open General

variable {σ : Type}

section Entries

variable (v : Virtual σ) (this : ContextId)

/-- `DoActions` comes to the entry behind the first ones. -/
def Reaches (before : List Action) (s : Runtime σ) (lastCond : Bool) (s' : Runtime σ) : Prop :=
  (do enter; runActions v this before false) s = .ok lastCond s'

/-- The condition of the entry is evaluated. -/
def Asked (action : Action) (lastCond : Bool) (s : Runtime σ) : Prop :=
  ∃ answer, .condition action.condExpr answer ∈ actionCall v this action lastCond s

/-- The action of the entry is executed. -/
def Executed (action : Action) (lastCond : Bool) (s : Runtime σ) : Prop :=
  ∃ answer, .action action answer ∈ actionCall v this action lastCond s

/-- The condition of the entry would hold now, if it has one. -/
def Holds (action : Action) (s : Runtime σ) : Prop :=
  action.cond.asks → ∃ s', v.checkRule this action.condExpr s = .ok true s'

/-- Of the condition that is open behind the entries, a branch of this kind has been executed. -/
def TakenBy (branch : ConditionalType) (before : List Action) (s : Runtime σ) : Prop :=
  ∃ front entry between lastCond s', before = front ++ entry :: between ∧ entry.cond = branch ∧
    (∀ action ∈ between, action.cond ≠ .ifTrue) ∧ Reaches v this front s lastCond s' ∧
    Executed v this entry lastCond s'

/-- A branch in front of the entry, and of the same condition, has been executed. -/
def Decided (before : List Action) (action : Action) (s : Runtime σ) : Prop :=
  action.cond.chained ∧ ∃ branch, branch ≠ .none ∧ TakenBy v this branch before s

/-- Of each condition that the list comes to, the first branch that holds is executed and no
other one, and nothing is evaluated behind it. An entry without a condition is always executed. -/
def ChoosesBranches (actions : List Action) (s : Runtime σ) : Prop :=
  ∀ before action after lastCond s', actions = before ++ action :: after →
    Reaches v this before s lastCond s' →
    (Asked v this action lastCond s' ↔ action.cond.asks ∧ ¬Decided v this before action s) ∧
    (Executed v this action lastCond s' ↔ Holds v this action s' ∧ ¬Decided v this before action s)

/-- The calls of the loop are those of its entries, one entry after the other. -/
def InListOrder (state : State) (s : Runtime σ) : Prop :=
  ∀ before action after lastCond s', state.actions = before ++ action :: after →
    Reaches v this before s lastCond s' →
    ∃ later, actionCalls v this state s =
      actionTrace v this before false s.push ++ (actionCall v this action lastCond s' ++ later)

/-- The list comes to no other branch behind an `else` that was executed. -/
def ElseIsLast (actions : List Action) (s : Runtime σ) : Prop :=
  ∀ before action after lastCond s', actions = before ++ action :: after →
    Reaches v this before s lastCond s' → action.cond.chained →
    ¬TakenBy v this .orElse before s

end Entries

variable {v : Virtual σ} {this : ContextId}

theorem runActions_append (front back : List Action) (taken : Bool) :
    runActions v this (front ++ back) taken =
      (runActions v this front taken >>= fun taken => runActions v this back taken) := by
  induction front generalizing taken with
  | nil => rfl
  | cons action front ih =>
      have hRest : (fun taken => runActions v this (front ++ back) taken) =
          fun taken => runActions v this front taken >>= fun taken => runActions v this back taken := by
        funext taken
        exact ih taken
      calc runActions v this (action :: front ++ back) taken
          = runAction v this action taken >>= fun taken => runActions v this (front ++ back) taken := rfl
        _ = _ := by
          rw [hRest]
          exact (bind_assoc _ _ _).symm

theorem actionTrace_append (front back : List Action) (taken : Bool) (s : Runtime σ) :
    actionTrace v this (front ++ back) taken s = actionTrace v this front taken s ++
      behind (runActions v this front taken) (fun taken s => actionTrace v this back taken s) s := by
  induction front generalizing taken s with
  | nil => rfl
  | cons action front ih =>
      rw [List.cons_append, actionTrace, actionTrace, List.append_assoc]
      congr 1
      cases hStep : runAction v this action taken s with
      | error e s₁ =>
          have hRun : runActions v this (action :: front) taken s = .error e s₁ := bind_of_error hStep
          rw [behind_of_error hStep, behind_of_error hStep, behind_of_error hRun]
          rfl
      | ok taken₁ s₁ =>
          have hRun : runActions v this (action :: front) taken s = runActions v this front taken₁ s₁ :=
            bind_of_ok hStep
          rw [behind_of_ok hStep, behind_of_ok hStep, ih]
          simp only [behind, hRun]

/-- A run of the loop that comes to an entry has come to all entries in front of it. -/
theorem Reaches.earlier {front back : List Action} {s s' : Runtime σ} {lastCond : Bool}
    (h : Reaches v this (front ++ back) s lastCond s') :
    ∃ taken s₁, Reaches v this front s taken s₁ := by
  unfold Reaches at h ⊢
  rw [runActions_append, ← bind_assoc] at h
  cases hFront : (do enter; runActions v this front false) s with
  | ok taken s₁ => exact ⟨taken, s₁, rfl⟩
  | error e s₁ =>
      rw [bind_of_error hFront] at h
      cases h

theorem reaches_snoc {front : List Action} {action : Action} {s s' : Runtime σ} {lastCond : Bool} :
    Reaches v this (front ++ [action]) s lastCond s' ↔
      ∃ taken s₁, Reaches v this front s taken s₁ ∧ runAction v this action taken s₁ = .ok lastCond s' := by
  have hLast (taken : Bool) : runActions v this [action] taken = runAction v this action taken :=
    bind_pure _
  have hSplit : (do enter; runActions v this (front ++ [action]) false) =
      (do enter; runActions v this front false) >>= fun taken => runAction v this action taken := by
    rw [runActions_append, bind_assoc]
    simp only [hLast]
  unfold Reaches
  rw [hSplit]
  cases hFront : (do enter; runActions v this front false) s with
  | error e s₁ => simp [bind_of_error hFront]
  | ok taken s₁ =>
      rw [bind_of_ok hFront]
      constructor
      · intro h
        exact ⟨taken, s₁, rfl, h⟩
      · rintro ⟨_, _, hSame, h⟩
        cases hSame
        exact h

theorem Reaches.unique {before : List Action} {s s₁ s₂ : Runtime σ} {lastCond lastCond' : Bool}
    (h : Reaches v this before s lastCond s₁) (h' : Reaches v this before s lastCond' s₂) :
    lastCond = lastCond' ∧ s₁ = s₂ := by
  unfold Reaches at h h'
  rw [h] at h'
  cases h'
  exact ⟨rfl, rfl⟩

section Entry

variable {action : Action} {lastCond : Bool} {s : Runtime σ}

theorem asked_iff : Asked v this action lastCond s ↔
    action.cond.asks ∧ ¬(action.cond.chained ∧ lastCond) := by
  unfold Asked actionCall
  split
  case isTrue hSkip => simp [hSkip]
  case isFalse hTurn =>
    split
    case isTrue hAsks => simp [hAsks, hTurn]
    case isFalse hAsks => simp [hAsks, performCall]

theorem executed_iff : Executed v this action lastCond s ↔
    Holds v this action s ∧ ¬(action.cond.chained ∧ lastCond) := by
  unfold Executed Holds actionCall
  split
  case isTrue hSkip => simp [hSkip]
  case isFalse hTurn =>
    split
    case isFalse hAsks => simp [hAsks, hTurn, performCall]
    case isTrue hAsks =>
      cases hCheck : v.checkRule this action.condExpr s with
      | error e s' => simp [behind_of_error hCheck, hAsks]
      | ok holds s' =>
          rw [behind_of_ok hCheck]
          cases holds with
          | false => simp [hAsks]
          | true => simp [hAsks, hTurn, performCall]

/-- `last_cond` is true behind a branch with a condition that was executed, and stays so until the
next `if`. -/
theorem lastCond_iff {taken : Bool} {s' : Runtime σ}
    (h : runAction v this action taken s = .ok lastCond s') :
    lastCond = true ↔ action.cond.asks ∧ Executed v this action taken s ∨
      action.cond ≠ .ifTrue ∧ taken = true := by
  by_cases hSkip : action.cond.chained ∧ taken
  · rw [runAction_skipped hSkip] at h
    cases h
    have hBranch : action.cond ≠ .ifTrue := fun hIf => by simp [hIf, ConditionalType.chained] at hSkip
    exact iff_of_true hSkip.2 (.inr ⟨hBranch, hSkip.2⟩)
  · unfold runAction at h
    rw [if_neg hSkip] at h
    rw [executed_iff]
    split at h
    case isTrue hAsks =>
      have hNew : ¬(action.cond ≠ .ifTrue ∧ taken = true) := by
        cases hCond : action.cond with
        | ifTrue => simp
        | elseIf => simpa [hCond, ConditionalType.chained] using hSkip
        | none => simp [hCond, ConditionalType.asks] at hAsks
        | orElse => simp [hCond, ConditionalType.asks] at hAsks
      cases hCheck : v.checkRule this action.condExpr s with
      | error e s₁ =>
          rw [bind_of_error hCheck] at h
          cases h
      | ok holds s₁ =>
          rw [bind_of_ok hCheck] at h
          have hSame : lastCond = holds := by
            cases hRest : (if holds then performAction v this action else return () : Prog σ Unit) s₁ with
            | error e s₂ =>
                rw [bind_of_error hRest] at h
                cases h
            | ok _ s₂ =>
                rw [bind_of_ok hRest] at h
                cases h
                rfl
          simp [hSame, Holds, hCheck, hAsks, hSkip, hNew]
    case isFalse hAsks =>
      have hBranch : action.cond ≠ .ifTrue := fun hIf => hAsks (by rw [hIf]; rfl)
      have hSame : lastCond = taken := by
        cases hPerform : performAction v this action s with
        | error e s₁ =>
            rw [bind_of_error hPerform] at h
            cases h
        | ok _ s₁ =>
            rw [bind_of_ok hPerform] at h
            cases h
            rfl
      simp [hSame, hAsks, hBranch]

end Entry

/-- The last entry is a branch of the condition that is open behind it, or leaves open the one that
was open in front of it. -/
theorem takenBy_snoc {branch : ConditionalType} {before : List Action} {action : Action}
    {s s' : Runtime σ} {taken : Bool} (hHere : Reaches v this before s taken s') :
    TakenBy v this branch (before ++ [action]) s ↔
      action.cond = branch ∧ Executed v this action taken s' ∨
        action.cond ≠ .ifTrue ∧ TakenBy v this branch before s := by
  constructor
  · rintro ⟨front, entry, between, lastCond, s₁, hSplit, hBranch, hOpen, hFront, hExecuted⟩
    obtain rfl | ⟨middle, last, rfl⟩ := List.eq_nil_or_concat' between
    · obtain ⟨rfl, hEntry⟩ := List.append_inj' hSplit rfl
      cases hEntry
      obtain ⟨rfl, rfl⟩ := hFront.unique hHere
      exact .inl ⟨hBranch, hExecuted⟩
    · rw [← List.cons_append, ← List.append_assoc] at hSplit
      obtain ⟨rfl, hEntry⟩ := List.append_inj' hSplit rfl
      cases hEntry
      refine .inr ⟨hOpen action (by simp), front, entry, middle, lastCond, s₁, rfl, hBranch, ?_, hFront, hExecuted⟩
      intro other hOther
      exact hOpen other (by simp [hOther])
  · rintro (⟨hBranch, hExecuted⟩ |
      ⟨hGoesOn, front, entry, between, lastCond, s₁, rfl, hBranch, hOpen, hFront, hExecuted⟩)
    · exact ⟨before, action, [], taken, s', rfl, hBranch, by simp, hHere, hExecuted⟩
    · refine ⟨front, entry, between ++ [action], lastCond, s₁, by simp, hBranch, ?_, hFront, hExecuted⟩
      intro other hOther
      obtain hOther | hOther := List.mem_append.mp hOther
      · exact hOpen other hOther
      · rw [List.mem_singleton.mp hOther]
        exact hGoesOn

/-- What `last_cond` stands for. It says nothing about an `else`. -/
theorem lastCond_means {before : List Action} {s s' : Runtime σ} {lastCond : Bool}
    (h : Reaches v this before s lastCond s') :
    lastCond = true ↔ TakenBy v this .ifTrue before s ∨ TakenBy v this .elseIf before s := by
  induction before using List.reverseRecOn generalizing lastCond s' with
  | nil =>
      have hNone (branch : ConditionalType) : ¬TakenBy v this branch [] s := by
        rintro ⟨front, entry, between, _, _, hSplit, -⟩
        simp at hSplit
      have hStart : lastCond = false := by
        unfold Reaches at h
        cases hEnter : enter s with
        | error e s₁ =>
            rw [bind_of_error hEnter] at h
            cases h
        | ok _ s₁ =>
            rw [bind_of_ok hEnter] at h
            cases h
            rfl
      simp [hStart, hNone]
  | append_singleton before action ih =>
      obtain ⟨taken, s₁, hHere, hStep⟩ := reaches_snoc.mp h
      rw [lastCond_iff hStep, takenBy_snoc hHere, takenBy_snoc hHere, ih hHere]
      cases hCond : action.cond with
      | none => simp [ConditionalType.asks]
      | ifTrue => simp [ConditionalType.asks]
      | orElse => simp [ConditionalType.asks]
      | elseIf =>
          simp only [ConditionalType.asks, true_and, reduceCtorEq, not_false_eq_true, ne_eq, false_and,
            false_or]
          tauto

/-- The loop leaves out the branches behind one that was executed, unless that was an `else`. -/
theorem decided_iff {before : List Action} {action : Action} {s s' : Runtime σ} {lastCond : Bool}
    (h : Reaches v this before s lastCond s') :
    Decided v this before action s ↔
      action.cond.chained ∧ (lastCond = true ∨ TakenBy v this .orElse before s) := by
  unfold Decided
  rw [lastCond_means h]
  refine and_congr_right fun _ => ⟨?_, ?_⟩
  · rintro ⟨branch, hBranch, hTaken⟩
    cases branch with
    | none => exact absurd rfl hBranch
    | ifTrue => exact .inl (.inl hTaken)
    | elseIf => exact .inl (.inr hTaken)
    | orElse => exact .inr hTaken
  · rintro ((hTaken | hTaken) | hTaken)
    · exact ⟨.ifTrue, by simp, hTaken⟩
    · exact ⟨.elseIf, by simp, hTaken⟩
    · exact ⟨.orElse, by simp, hTaken⟩

/-- A branch behind an `else` that was executed is treated as if none had been, where `last_cond`
is false. -/
theorem not_chooses_of_branch {before after : List Action} {action : Action} {s s' : Runtime σ}
    (hHere : Reaches v this before s false s') (hChained : action.cond.chained)
    (hTaken : TakenBy v this .orElse before s) :
    ¬ChoosesBranches v this (before ++ action :: after) s := by
  intro h
  have hDecided : Decided v this before action s := (decided_iff hHere).mpr ⟨hChained, .inr hTaken⟩
  obtain ⟨hAsked, hExecuted⟩ := h before action after false s' rfl hHere
  rw [asked_iff] at hAsked
  rw [executed_iff] at hExecuted
  cases hCond : action.cond with
  | none => simp [hCond, ConditionalType.chained] at hChained
  | ifTrue => simp [hCond, ConditionalType.chained] at hChained
  | elseIf => simp [hCond, ConditionalType.asks, hDecided] at hAsked
  | orElse => simp [hCond, ConditionalType.asks, Holds, hDecided] at hExecuted

/-- Where an `else` is executed, `last_cond` is false, and stays so up to the next branch. -/
theorem exists_branch {before : List Action} {s s' : Runtime σ} {lastCond : Bool}
    (hHere : Reaches v this before s lastCond s') (hTaken : TakenBy v this .orElse before s) :
    (lastCond = false ∧ TakenBy v this .orElse before s) ∨
      ∃ front action back s₁, before = front ++ action :: back ∧ Reaches v this front s false s₁ ∧
        action.cond.chained ∧ TakenBy v this .orElse front s := by
  induction before using List.reverseRecOn generalizing lastCond s' with
  | nil =>
      obtain ⟨front, entry, between, _, _, hSplit, -⟩ := hTaken
      simp at hSplit
  | append_singleton before action ih =>
      obtain ⟨taken, s₁, hFront, hStep⟩ := reaches_snoc.mp hHere
      have hStays : ¬action.cond.asks → lastCond = taken := by
        intro hAsks
        have hBranch : action.cond ≠ .ifTrue := fun hIf => hAsks (by rw [hIf]; rfl)
        rw [Bool.eq_iff_iff, lastCond_iff hStep]
        simp [hAsks, hBranch]
      obtain ⟨hElse, hExecuted⟩ | ⟨hGoesOn, hEarlier⟩ := (takenBy_snoc hFront).mp hTaken
      · -- the last entry is the `else` itself
        have hOpen := (executed_iff.mp hExecuted).2
        refine .inl ⟨?_, hTaken⟩
        rw [hStays (by simp [hElse, ConditionalType.asks])]
        simpa [hElse, ConditionalType.chained] using hOpen
      · obtain ⟨rfl, -⟩ | ⟨front, branch, back, s₂, rfl, hFound⟩ := ih hFront hEarlier
        · by_cases hChained : action.cond.chained
          · exact .inr ⟨before, action, [], s₁, rfl, hFront, hChained, hEarlier⟩
          · refine .inl ⟨hStays ?_, hTaken⟩
            cases hCond : action.cond with
            | none => simp [ConditionalType.asks]
            | ifTrue => exact absurd hCond hGoesOn
            | elseIf => simp [hCond, ConditionalType.chained] at hChained
            | orElse => simp [hCond, ConditionalType.chained] at hChained
        · exact .inr ⟨front, branch, back ++ [action], s₂, by simp, hFound⟩

theorem chooses_of_else_last {actions : List Action} {s : Runtime σ}
    (h : ElseIsLast v this actions s) : ChoosesBranches v this actions s := by
  intro before action after lastCond s' hSplit hHere
  have hDecided : Decided v this before action s ↔ action.cond.chained ∧ lastCond = true := by
    rw [decided_iff hHere]
    refine and_congr_right fun hChained => or_iff_left ?_
    exact h before action after lastCond s' hSplit hHere hChained
  rw [hDecided]
  exact ⟨asked_iff, executed_iff⟩

theorem else_last_of_chooses {actions : List Action} {s : Runtime σ}
    (h : ChoosesBranches v this actions s) : ElseIsLast v this actions s := by
  intro before action after lastCond s' hSplit hHere hChained hTaken
  obtain ⟨rfl, -⟩ | ⟨front, branch, back, s₁, rfl, hFront, hBranch, hEarlier⟩ := exists_branch hHere hTaken
  · rw [hSplit] at h
    exact not_chooses_of_branch hHere hChained hTaken h
  · rw [hSplit, List.append_assoc, List.cons_append] at h
    exact not_chooses_of_branch hFront hBranch hEarlier h

theorem in_list_order (v : Virtual σ) (this : ContextId) (state : State) (s : Runtime σ) :
    InListOrder v this state s := by
  intro before action after lastCond s' hSplit hHere
  unfold actionCalls
  rw [guarded_calls (runActions_notes state.actions false)]
  unfold Reaches at hHere
  split
  case isTrue hDeep =>
    rw [bind_of_error (enter_of_deep hDeep)] at hHere
    cases hHere
  case isFalse hRoom =>
    rw [bind_of_ok (enter_of_room hRoom)] at hHere
    rw [hSplit, actionTrace_append, behind_of_ok hHere]
    exact ⟨_, rfl⟩

/-- In one run of the list of actions of a state, of each condition the first branch that holds is
executed and no other one exactly if no other branch is reached behind an `else` that was executed. -/
theorem chooses_iff_else_last (v : Virtual σ) (this : ContextId) (state : State) (s : Runtime σ) :
    InListOrder v this state s ∧ ChoosesBranches v this state.actions s ↔
      ElseIsLast v this state.actions s := by
  constructor
  · rintro ⟨-, hChooses⟩
    exact else_last_of_chooses hChooses
  · intro h
    exact ⟨in_list_order v this state s, chooses_of_else_last h⟩

/-- No condition holds, and no action reports a change. -/
def idle : Virtual Unit where
  quest _ := ⟨false, []⟩
  beginState _ _ _ := return ()
  checkRule _ _ := return false
  doAction _ _ := return false

/-- Both items are given. -/
theorem gives_twice :
    (∀ this action s, idle.doAction this action s = .ok false s) ∧
      ¬ChoosesBranches idle ⟨1, 0⟩
        [⟨.ifTrue, ⟨"level", [⟨10, "10"⟩]⟩, ⟨"giveexp", [⟨10, "10"⟩]⟩⟩,
          ⟨.orElse, ⟨"", []⟩, ⟨"giveitem", [⟨1, "1"⟩]⟩⟩, ⟨.orElse, ⟨"", []⟩, ⟨"giveitem", [⟨2, "2"⟩]⟩⟩]
        ⟨0, fun _ => ⟨none, "begin", false⟩, (), 0, 0, 0⟩ := by
  let check : Action := ⟨.ifTrue, ⟨"level", [⟨10, "10"⟩]⟩, ⟨"giveexp", [⟨10, "10"⟩]⟩⟩
  let first : Action := ⟨.orElse, ⟨"", []⟩, ⟨"giveitem", [⟨1, "1"⟩]⟩⟩
  let s : Runtime Unit := ⟨0, fun _ => ⟨none, "begin", false⟩, (), 0, 0, 0⟩
  have hCheck : Reaches idle ⟨1, 0⟩ [check] s false s.push := rfl
  have hFirst : Reaches idle ⟨1, 0⟩ [check, first] s false s.push := rfl
  have hGiven : Executed idle ⟨1, 0⟩ first false s.push := ⟨some false, by decide⟩
  refine ⟨fun _ _ _ => rfl, not_chooses_of_branch hFirst rfl ?_⟩
  exact ⟨[check], first, [], false, s.push, rfl, rfl, by simp, hCheck, hGiven⟩

end Etheos.EOPlus
