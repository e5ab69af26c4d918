import Etheos.Quest.Context

/-! The calls that the loops of `DoActions` and `CheckRules` make. A change of
state ends the loop over the rules, but not the one over the actions. -/
namespace Etheos.EOPlus

open General

/-- A call of a virtual function with its answer, which is missing when the call
throws. -/
inductive Call
  | condition (expr : Expression) (answer : Option Bool)
  | action (action : Action) (answer : Option Bool)
  deriving Repr, DecidableEq

def Call.reportsChange : Call → Bool
  | condition _ _ => false
  | action _ answer => answer = some true

@[simp] theorem reportsChange_condition (expr : Expression) (answer : Option Bool) :
    (Call.condition expr answer).reportsChange = false := rfl

/-- Nothing is called behind a call that reported a change. -/
def StopsAtChange (calls : List Call) : Prop :=
  calls.Pairwise fun earlier _ => earlier.reportsChange = false

structure Traced (σ : Type) where
  rest : σ
  calls : List Call

variable {σ α : Type}

namespace Runtime

def traced (s : Runtime σ) (calls : List Call) : Runtime (Traced σ) :=
  { s with rest := ⟨s.rest, calls⟩ }

def untraced (s : Runtime (Traced σ)) : Runtime σ := { s with rest := s.rest.rest }

@[simp] theorem untraced_traced (s : Runtime σ) (calls : List Call) :
    (s.traced calls).untraced = s := rfl

theorem traced_push (s : Runtime σ) (calls : List Call) :
    (s.traced calls).push = s.push.traced calls := rfl

@[simp] theorem traced_calls (s : Runtime σ) (calls : List Call) :
    (s.traced calls).rest.calls = calls := rfl

end Runtime

/-- The same end of a program, with the calls that were made. -/
def withCalls (calls : List Call) :
    EStateM.Result Fault (Runtime σ) α → EStateM.Result Fault (Runtime (Traced σ)) α
  | .ok a s => .ok a (s.traced calls)
  | .error e s => .error e (s.traced calls)

def callsOf : EStateM.Result Fault (Runtime (Traced σ)) α → List Call
  | .ok _ s => s.rest.calls
  | .error _ s => s.rest.calls

@[simp] theorem callsOf_withCalls (calls : List Call)
    (r : EStateM.Result Fault (Runtime σ) α) : callsOf (withCalls calls r) = calls := by
  cases r with
  | ok => rfl
  | error => rfl

/-- The answer of a call is written down. -/
def noted (call : Option Bool → Call) (x : Prog σ Bool) : Prog (Traced σ) Bool := fun s =>
  match x s.untraced with
  | .ok answer s' => .ok answer (s'.traced (s.rest.calls ++ [call (some answer)]))
  | .error e s' => .error e (s'.traced (s.rest.calls ++ [call none]))

/-- The same subclass, with the calls from the loops written down. -/
def Virtual.noted (v : Virtual σ) : Virtual (Traced σ) where
  quest := v.quest
  beginState this name state := fun s => withCalls s.rest.calls (v.beginState this name state s.untraced)
  doAction this action := EOPlus.noted (.action action) (v.doAction this action)
  checkRule this expr := EOPlus.noted (.condition expr) (v.checkRule this expr)

/-- The calls of the loop over the actions of a state. -/
def actionCalls (v : Virtual σ) (this : ContextId) (state : State) (s : Runtime σ) : List Call :=
  callsOf (guarded (runActions v.noted this state.actions false) (s.traced []))

/-- The calls of the loop over its rules. -/
def ruleCalls (v : Virtual σ) (this : ContextId) (state : State) (s : Runtime σ) : List Call :=
  callsOf (guarded (runRules v.noted this state.rules) (s.traced []))

/-- The first program does what the second one does, and writes down calls that
depend on the state in front of it. -/
def Notes (x' : Prog (Traced σ) α) (x : Prog σ α) (calls : Runtime σ → List Call) : Prop :=
  ∀ s before, x' (s.traced before) = withCalls (before ++ calls s) (x s)

def answerOf (x : Prog σ Bool) (s : Runtime σ) : Option Bool :=
  match x s with
  | .ok answer _ => some answer
  | .error _ _ => none

/-- The calls behind a program, if it returns. -/
def behind (x : Prog σ α) (calls : α → Runtime σ → List Call) (s : Runtime σ) : List Call :=
  match x s with
  | .ok a s' => calls a s'
  | .error _ _ => []

theorem behind_of_ok {x : Prog σ α} {s s' : Runtime σ} {a : α} (h : x s = .ok a s')
    (calls : α → Runtime σ → List Call) : behind x calls s = calls a s' := by
  rw [behind, h]

theorem behind_of_error {x : Prog σ α} {s s' : Runtime σ} {e : Fault} (h : x s = .error e s')
    (calls : α → Runtime σ → List Call) : behind x calls s = [] := by
  rw [behind, h]

namespace Notes

theorem ret (a : α) : Notes (pure a) (pure a : Prog σ α) fun _ => [] := by
  intro s before
  rw [List.append_nil]
  rfl

theorem call (note : Option Bool → Call) (x : Prog σ Bool) :
    Notes (noted note x) x fun s => [note (answerOf x s)] := by
  intro s before
  simp only [noted, Runtime.untraced_traced, Runtime.traced_calls, answerOf]
  cases x s with
  | ok answer s' => rfl
  | error e s' => rfl

theorem change : Notes (modify Runtime.change) (modify Runtime.change : Prog σ Unit) fun _ => [] := by
  intro s before
  rw [List.append_nil]
  rfl

theorem bind {β : Type} {x : Prog σ α} {x' : Prog (Traced σ) α} {f : α → Prog σ β}
    {f' : α → Prog (Traced σ) β} {calls : Runtime σ → List Call}
    {next : α → Runtime σ → List Call} (hx : Notes x' x calls)
    (hf : ∀ a, Notes (f' a) (f a) (next a)) :
    Notes (x' >>= f') (x >>= f) fun s => calls s ++ behind x next s := by
  intro s before
  have hFirst := hx s before
  cases hRun : x s with
  | error e s' =>
      rw [hRun] at hFirst
      simp only [behind, hRun, List.append_nil]
      rw [bind_of_error hFirst, bind_of_error hRun]
      rfl
  | ok a s' =>
      rw [hRun] at hFirst
      simp only [behind, hRun, ← List.append_assoc]
      rw [bind_of_ok hFirst, bind_of_ok hRun, hf]

/-- The same calls may be written in another way. -/
theorem congr {x : Prog σ α} {x' : Prog (Traced σ) α} {calls calls' : Runtime σ → List Call}
    (h : Notes x' x calls) (hCalls : ∀ s, calls s = calls' s) : Notes x' x calls' := by
  intro s before
  rw [h s before, hCalls]

end Notes

section Trace

variable (v : Virtual σ) (this : ContextId)

/-- Whether an action is run, where `taken` is the value of `last_cond`. -/
def selected (action : Action) (taken : Bool) : Prog σ Bool :=
  if action.cond.chained ∧ taken then return false
  else if action.cond.asks then v.checkRule this action.condExpr
  else return true

def performCall (action : Action) (s : Runtime σ) : List Call :=
  [.action action (answerOf (v.doAction this action) s)]

/-- The calls for one action. -/
def actionCall (action : Action) (taken : Bool) (s : Runtime σ) : List Call :=
  if action.cond.chained ∧ taken then []
  else if action.cond.asks then
    .condition action.condExpr (answerOf (v.checkRule this action.condExpr) s) ::
      behind (v.checkRule this action.condExpr)
        (fun holds s => if holds then performCall v this action s else []) s
  else performCall v this action s

/-- The calls from a place in the list of actions on. -/
def actionTrace : List Action → Bool → Runtime σ → List Call
  | [], _, _ => []
  | action :: actions, taken, s =>
      actionCall v this action taken s ++
        behind (runAction v this action taken) (fun taken s => actionTrace actions taken s) s

/-- The calls from a place in the list of rules on. -/
def ruleTrace : List Rule → Runtime σ → List Call
  | [], _ => []
  | rule :: rules, s =>
      .condition rule.expr (answerOf (v.checkRule this rule.expr) s) ::
        behind (v.checkRule this rule.expr) (fun holds s =>
          if holds then
            performCall v this rule.action s ++
              behind (v.doAction this rule.action)
                (fun changed s => if changed then [] else ruleTrace rules s) s
          else ruleTrace rules s) s

end Trace

variable {v : Virtual σ} {this : ContextId}

theorem performAction_notes (action : Action) :
    Notes (performAction v.noted this action) (performAction v this action)
      (performCall v this action) := by
  refine ((Notes.call _ _).bind fun answer => (?_ : Notes _ _ fun _ => [])).congr fun s => ?_
  · cases answer with
    | true => exact .change
    | false => exact .ret ()
  · unfold behind
    split
    · rfl
    · rfl

theorem runAction_notes (action : Action) (taken : Bool) :
    Notes (runAction v.noted this action taken) (runAction v this action taken)
      (actionCall v this action taken) := by
  have hPerform (holds : Bool) : Notes
      (do performAction v.noted this action; return holds)
      (do performAction v this action; return holds) (performCall v this action) := by
    refine ((performAction_notes action).bind fun _ => .ret holds).congr fun s => ?_
    unfold behind
    split
    · rw [List.append_nil]
    · rw [List.append_nil]
  unfold runAction actionCall
  split
  · exact .ret taken
  · split
    · refine (Notes.call _ _).bind fun holds => ?_
      cases holds with
      | true => exact hPerform true
      | false => exact .ret false
    · exact hPerform taken

/-- Writing the calls down changes nothing else, and the calls are those of the
trace. -/
theorem runActions_notes (actions : List Action) (taken : Bool) :
    Notes (runActions v.noted this actions taken) (runActions v this actions taken)
      (actionTrace v this actions taken) := by
  induction actions generalizing taken with
  | nil => exact .ret taken
  | cons action actions ih => exact (runAction_notes action taken).bind fun taken => ih taken

theorem runRules_notes (rules : List Rule) :
    Notes (runRules v.noted this rules) (runRules v this rules) (ruleTrace v this rules) := by
  induction rules with
  | nil => exact .ret false
  | cons rule rules ih =>
      refine (Notes.call _ _).bind fun holds => ?_
      cases holds with
      | false => exact ih
      | true =>
          refine ((Notes.call _ _).bind fun changed => ?_)
          cases changed with
          | true => exact .ret true
          | false => exact ih

theorem guarded_calls {x' : Prog (Traced σ) α} {x : Prog σ α} {calls : Runtime σ → List Call}
    (h : Notes x' x calls) (s : Runtime σ) :
    callsOf (guarded x' (s.traced [])) =
      if maxRecursion < s.recursiveDepth + 1 then [] else calls s.push := by
  unfold guarded
  split
  case isTrue hDeep =>
    rw [bind_of_error (enter_of_deep (s := s.traced []) hDeep)]
    rfl
  case isFalse hRoom =>
    rw [bind_of_ok (enter_of_room (s := s.traced []) hRoom), Runtime.traced_push]
    have hBody := h s.push []
    rw [List.nil_append] at hBody
    cases hRun : x s.push with
    | ok a s' =>
        rw [hRun] at hBody
        rw [bind_of_ok (tryCatch_of_ok hBody)]
        rfl
    | error e s' =>
        rw [hRun] at hBody
        have hCaught : tryCatch x' (fun e => do leave; throw e) (s.push.traced []) =
            .error e (s'.pop.traced (calls s.push)) := tryCatch_of_error hBody
        rw [bind_of_error hCaught]
        rfl

/-- The loop over the rules always stops at a change. -/
theorem ruleTrace_stops (rules : List Rule) (s : Runtime σ) :
    StopsAtChange (ruleTrace v this rules s) := by
  induction rules generalizing s with
  | nil => exact List.Pairwise.nil
  | cons rule rules ih =>
      refine List.Pairwise.cons (fun _ _ => rfl) ?_
      cases hCheck : v.checkRule this rule.expr s with
      | error e s₁ => simp [behind, hCheck]
      | ok holds s₁ =>
          simp only [behind, hCheck]
          cases holds with
          | false => exact ih s₁
          | true =>
              cases hAction : v.doAction this rule.action s₁ with
              | error e s₂ => simp [performCall]
              | ok changed s₂ =>
                  cases changed with
                  | true => simp [performCall]
                  | false =>
                      refine List.Pairwise.cons (fun _ _ => ?_) (ih s₂)
                      simp [answerOf, hAction, Call.reportsChange]

/-- The actions are `else` branches of a condition that was true. -/
def Spent (taken : Bool) (actions : List Action) : Prop :=
  ∀ action ∈ actions, taken = true ∧ action.cond.chained = true

theorem runAction_skipped {action : Action} {taken : Bool} (h : action.cond.chained ∧ taken)
    (s : Runtime σ) : runAction v this action taken s = .ok taken s := by
  unfold runAction
  rw [if_pos h]
  rfl

theorem actionCall_ne_nil {action : Action} {taken : Bool} (h : ¬(action.cond.chained ∧ taken))
    (s : Runtime σ) : actionCall v this action taken s ≠ [] := by
  unfold actionCall
  rw [if_neg h]
  split
  · exact List.cons_ne_nil _ _
  · exact List.cons_ne_nil _ _

theorem actionTrace_eq_nil_iff (actions : List Action) (taken : Bool) (s : Runtime σ) :
    actionTrace v this actions taken s = [] ↔ Spent taken actions := by
  induction actions generalizing s with
  | nil => simp [actionTrace, Spent]
  | cons action actions ih =>
      unfold actionTrace
      rw [List.append_eq_nil_iff, Spent, List.forall_mem_cons]
      by_cases hSkip : action.cond.chained ∧ taken
      · have hCall : actionCall v this action taken s = [] := if_pos hSkip
        rw [hCall, behind_of_ok (runAction_skipped hSkip s), ih]
        exact ⟨fun h => ⟨hSkip.symm, h.2⟩, fun h => ⟨rfl, h.2⟩⟩
      · have hLeft : actionCall v this action taken s ≠ [] := actionCall_ne_nil hSkip s
        constructor
        · intro h
          exact absurd h.1 hLeft
        · intro h
          exact absurd h.1.symm hSkip

/-- The action is run, and it reports a change. -/
def Reports (v : Virtual σ) (this : ContextId) (action : Action) (taken : Bool)
    (s : Runtime σ) : Prop :=
  ∃ s₁ s₂, selected v this action taken s = .ok true s₁ ∧ v.doAction this action s₁ = .ok true s₂

theorem runAction_of_reports {action : Action} {taken : Bool} {s : Runtime σ}
    (h : Reports v this action taken s) :
    ∃ s', runAction v this action taken s = .ok (action.cond.asks || taken) s' := by
  obtain ⟨s₁, s₂, hSelected, hAction⟩ := h
  have hPerform : performAction v this action s₁ = .ok () s₂.change := bind_of_ok hAction
  unfold selected at hSelected
  unfold runAction
  split at hSelected
  · cases hSelected
  · rw [if_neg (by assumption)]
    split at hSelected
    case isTrue hAsks =>
      rw [if_pos hAsks, bind_of_ok hSelected, hAsks]
      exact ⟨s₂.change, bind_of_ok hPerform⟩
    case isFalse hAsks =>
      cases hSelected
      rw [if_neg hAsks, eq_false_of_ne_true hAsks]
      exact ⟨s₂.change, bind_of_ok hPerform⟩

/-- Only the last call for an action can report a change. -/
theorem actionCall_stops (action : Action) (taken : Bool) (s : Runtime σ) :
    StopsAtChange (actionCall v this action taken s) := by
  unfold actionCall
  split
  · exact List.Pairwise.nil
  · split
    · refine List.Pairwise.cons (fun _ _ => rfl) ?_
      cases hCheck : v.checkRule this action.condExpr s with
      | error e s' => exact (behind_of_error hCheck _).symm ▸ List.Pairwise.nil
      | ok holds s' =>
          rw [behind_of_ok hCheck]
          split
          · exact List.pairwise_singleton _ _
          · exact List.Pairwise.nil
    · exact List.pairwise_singleton _ _

theorem performCall_reports (action : Action) (s : Runtime σ) :
    (∃ call ∈ performCall v this action s, call.reportsChange = true) ↔
      ∃ s', v.doAction this action s = .ok true s' := by
  simp only [performCall, List.mem_singleton, exists_eq_left, Call.reportsChange, answerOf]
  cases v.doAction this action s with
  | ok answer s' => simp
  | error e s' => simp

theorem reports_iff (action : Action) (taken : Bool) (s : Runtime σ) :
    Reports v this action taken s ↔
      ∃ call ∈ actionCall v this action taken s, call.reportsChange = true := by
  unfold Reports selected actionCall
  split
  · constructor
    · rintro ⟨s₁, s₂, hSelected, -⟩
      cases hSelected
    · rintro ⟨call, hCall, -⟩
      cases hCall
  · split
    · simp only [List.mem_cons, exists_eq_or_imp]
      cases hCheck : v.checkRule this action.condExpr s with
      | error e s' => simp [behind_of_error hCheck]
      | ok holds s' =>
          rw [behind_of_ok hCheck]
          cases holds with
          | false => simp
          | true => simp [performCall_reports]
    · rw [performCall_reports]
      constructor
      · rintro ⟨s₁, s₂, hSelected, hAction⟩
        cases hSelected
        exact ⟨s₂, hAction⟩
      · rintro ⟨s₂, hAction⟩
        exact ⟨s, s₂, rfl, hAction⟩

/-- One turn of the loop: a change leaves only branches that are not taken. -/
theorem actionTrace_cons_stops (action : Action) (actions : List Action) (taken : Bool)
    (s : Runtime σ) :
    StopsAtChange (actionTrace v this (action :: actions) taken s) ↔
      (Reports v this action taken s → Spent (action.cond.asks || taken) actions) ∧
        ∀ taken' s', runAction v this action taken s = .ok taken' s' →
          StopsAtChange (actionTrace v this actions taken' s') := by
  unfold StopsAtChange
  rw [actionTrace, List.pairwise_append]
  have hBehind : (Reports v this action taken s → Spent (action.cond.asks || taken) actions) ↔
      (Reports v this action taken s →
        behind (runAction v this action taken) (actionTrace v this actions) s = []) := by
    refine forall_congr' fun hReports => ?_
    obtain ⟨s', hRun⟩ := runAction_of_reports hReports
    rw [behind_of_ok hRun, actionTrace_eq_nil_iff]
  rw [hBehind, reports_iff]
  constructor
  · intro ⟨_, hRest, hCross⟩
    constructor
    · intro ⟨call, hCall, hReports⟩
      refine List.eq_nil_iff_forall_not_mem.mpr fun later hLater => ?_
      rw [hCross call hCall later hLater] at hReports
      cases hReports
    · intro taken' s' hRun
      rw [behind_of_ok hRun] at hRest
      exact hRest
  · intro ⟨hLast, hRest⟩
    refine ⟨actionCall_stops action taken s, ?_, fun call hCall later hLater => ?_⟩
    · cases hRun : runAction v this action taken s with
      | error e s' => exact (behind_of_error hRun _).symm ▸ List.Pairwise.nil
      | ok taken' s' =>
          rw [behind_of_ok hRun]
          exact hRest taken' s' hRun
    · by_contra hReports
      rw [Bool.not_eq_false] at hReports
      rw [hLast ⟨call, hCall, hReports⟩] at hLater
      cases hLater

/-- Every action that is run and reports a change has only branches behind it
that are not taken. -/
theorem actionTrace_stops_iff (actions : List Action) (taken : Bool) (s : Runtime σ) :
    StopsAtChange (actionTrace v this actions taken s) ↔
      ∀ earlier action later taken' s', actions = earlier ++ action :: later →
        runActions v this earlier taken s = .ok taken' s' →
        Reports v this action taken' s' → Spent (action.cond.asks || taken') later := by
  induction actions generalizing taken s with
  | nil =>
      refine iff_of_true List.Pairwise.nil fun earlier action later _ _ hSplit => ?_
      cases earlier with
      | nil => cases hSplit
      | cons => cases hSplit
  | cons first actions ih =>
      rw [actionTrace_cons_stops]
      constructor
      · intro ⟨hFirst, hRest⟩ earlier action later taken' s' hSplit hRun hReports
        cases earlier with
        | nil =>
            cases hSplit
            cases hRun
            exact hFirst hReports
        | cons _ earlier =>
            cases hSplit
            unfold runActions at hRun
            cases hStep : runAction v this first taken s with
            | error e s₁ => rw [bind_of_error hStep] at hRun; cases hRun
            | ok taken₁ s₁ =>
                rw [bind_of_ok hStep] at hRun
                exact (ih taken₁ s₁).mp (hRest taken₁ s₁ hStep) earlier action later taken' s' rfl
                  hRun hReports
      · intro h
        refine ⟨h [] first actions taken s rfl rfl, fun taken₁ s₁ hStep => (ih taken₁ s₁).mpr ?_⟩
        intro earlier action later taken' s' hSplit hRun
        refine h (first :: earlier) action later taken' s' (by rw [hSplit]; rfl) ?_
        unfold runActions
        rw [bind_of_ok hStep]
        exact hRun

/-- In one run of the list of actions of a state, nothing is called behind a
change exactly if every action that is reached and reports a change has only
branches behind it that are not taken. -/
theorem actionCalls_stop_iff (v : Virtual σ) (this : ContextId) (state : State) (s : Runtime σ) :
    StopsAtChange (actionCalls v this state s) ↔
      ∀ earlier action later taken s', state.actions = earlier ++ action :: later →
        (do enter; runActions v this earlier false) s = .ok taken s' →
        Reports v this action taken s' → Spent (action.cond.asks || taken) later := by
  unfold actionCalls
  rw [guarded_calls (runActions_notes state.actions false)]
  split
  case isTrue hDeep =>
    refine iff_of_true List.Pairwise.nil fun earlier action later taken s' _ hRun => ?_
    rw [bind_of_error (enter_of_deep hDeep)] at hRun
    cases hRun
  case isFalse hRoom =>
    rw [actionTrace_stops_iff]
    refine forall_congr' fun earlier => forall_congr' fun action => forall_congr' fun later =>
      forall_congr' fun taken => forall_congr' fun s' => ?_
    rw [bind_of_ok (enter_of_room hRoom)]

theorem ruleCalls_stop (v : Virtual σ) (this : ContextId) (state : State) (s : Runtime σ) :
    StopsAtChange (ruleCalls v this state s) := by
  unfold ruleCalls
  rw [guarded_calls (runRules_notes state.rules)]
  split
  · exact List.Pairwise.nil
  · exact ruleTrace_stops state.rules s.push

/-- `SetState` is the only action that does anything, and the state that it
selects has no actions. -/
def moving : Virtual Unit where
  quest _ := ⟨false, [("next", ⟨"", [], [], 0⟩)]⟩
  beginState _ _ _ := return ()
  checkRule _ _ := return false
  doAction this action := do
    if action.expr.function = "setstate" then
      setContext this { state := some ⟨"", [], [], 0⟩, stateName := "next", finished := false }
      return true
    else return false

def rewarding : State where
  desc := ""
  rules := []
  actions := [⟨.none, ⟨"", []⟩, ⟨"setstate", [⟨0, "next"⟩]⟩⟩, ⟨.none, ⟨"", []⟩, ⟨"giveexp", [⟨10, "10"⟩]⟩⟩]
  goalRule := 0

/-- The experience is given after the state has been left. -/
theorem not_actionCalls_stop_setState :
    ¬StopsAtChange (actionCalls moving ⟨1, 0⟩ rewarding
      ⟨0, fun _ => ⟨some rewarding, "begin", false⟩, (), 0, 0, 0⟩) := by
  unfold StopsAtChange
  decide

end Etheos.EOPlus
