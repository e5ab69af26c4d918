import Etheos.General.Hoare
import Etheos.Quest.Syntax
import Mathlib.Logic.Function.Basic

/-! Quests at work: the state that a quest is in, its actions and its rules, and
the counter that guards the recursion between them. What single actions and
rules do is left to a subclass. -/
namespace Etheos.EOPlus

open General

/-- The number of the quest, and which of its contexts it is. -/
structure ContextId where
  quest : Int
  serial : Nat
  deriving Repr, DecidableEq

structure Context where
  state : Option State
  stateName : String
  finished : Bool
  deriving Repr, DecidableEq

/-- `nesting` is the number of activations of `DoActions` and `CheckRules` that
are under way, `deepest` the largest number there has been, and `changes` counts
the actions of action lists that reported a change of state. The program itself
has no such numbers. -/
structure Runtime (σ : Type) where
  recursiveDepth : Int
  contexts : ContextId → Context
  rest : σ
  nesting : Nat
  deepest : Nat
  changes : Nat

inductive Fault
  | runtimeError (what : String)
  /-- `args[i]` is read, and there is no such argument. -/
  | outOfRange
  /-- The calls go deeper than they are followed here. -/
  | exhausted
  deriving Repr, DecidableEq

abbrev Prog (σ : Type) := EStateM Fault (Runtime σ)

/-- What a subclass of `Context` adds: the quest of each context, and the virtual
functions. -/
structure Virtual (σ : Type) where
  quest : ContextId → Quest
  beginState : ContextId → String → State → Prog σ Unit
  doAction : ContextId → Action → Prog σ Bool
  checkRule : ContextId → Expression → Prog σ Bool

variable {σ : Type}

namespace Runtime

def setContext (s : Runtime σ) (this : ContextId) (context : Context) : Runtime σ :=
  { s with contexts := Function.update s.contexts this context }

/-- Another activation. -/
def push (s : Runtime σ) : Runtime σ :=
  { s with
    recursiveDepth := s.recursiveDepth + 1, nesting := s.nesting + 1,
    deepest := max s.deepest (s.nesting + 1) }

def pop (s : Runtime σ) : Runtime σ :=
  { s with recursiveDepth := s.recursiveDepth - 1, nesting := s.nesting - 1 }

/-- An action of an action list has reported a change. -/
def change (s : Runtime σ) : Runtime σ :=
  { s with recursiveDepth := s.recursiveDepth - 1, changes := s.changes + 1 }

end Runtime

/-- `max_recursion`. -/
def maxRecursion : Int := 100

def getContext (this : ContextId) : Prog σ Context := do
  let s ← get
  return s.contexts this

def setContext (this : ContextId) (context : Context) : Prog σ Unit :=
  modify (·.setContext this context)

/-- `++recursive_depth`, unless that goes too deep. -/
def enter : Prog σ Unit := do
  let s ← get
  if maxRecursion < s.recursiveDepth + 1 then throw (.runtimeError "Quest action recursion too deep")
  else set s.push

theorem enter_of_deep {s : Runtime σ} (h : maxRecursion < s.recursiveDepth + 1) :
    enter s = .error (.runtimeError "Quest action recursion too deep") s := by
  change (if _ then _ else _ : Prog σ Unit) s = _
  rw [if_pos h]
  rfl

theorem enter_of_room {s : Runtime σ} (h : ¬maxRecursion < s.recursiveDepth + 1) :
    enter s = .ok () s.push := by
  change (if _ then _ else _ : Prog σ Unit) s = _
  rw [if_neg h]
  rfl

def leave : Prog σ Unit := modify Runtime.pop

/-- The body of an activation, with `--recursive_depth` however it ends. -/
def guarded {α : Type} (body : Prog σ α) : Prog σ α := do
  enter
  let result ← tryCatch body fun e => do
    leave
    throw e
  leave
  return result

section

variable (v : Virtual σ) (this : ContextId)

/-- The lambda `do_action`. Its `return` ends the lambda, not the loop. -/
def performAction (action : Action) : Prog σ Unit := do
  if ← v.doAction this action then modify Runtime.change
  else return ()

/-- The body of the loop of `DoActions`. It returns `last_cond`. -/
def runAction (action : Action) (lastCond : Bool) : Prog σ Bool := do
  if action.cond.chained ∧ lastCond then return lastCond
  else if action.cond.asks then
    let lastCond ← v.checkRule this action.condExpr
    (if lastCond then performAction v this action else return ())
    return lastCond
  else
    performAction v this action
    return lastCond

/-- The loop of `DoActions`. -/
def runActions : List Action → Bool → Prog σ Bool
  | [], lastCond => return lastCond
  | action :: actions, lastCond => do
      let lastCond ← runAction v this action lastCond
      runActions actions lastCond

/-- The loop of `CheckRules`. -/
def runRules : List Rule → Prog σ Bool
  | [] => return false
  | rule :: rules => do
      if ← v.checkRule this rule.expr then
        if ← v.doAction this rule.action then return true
        else runRules rules
      else runRules rules

def checkRules : Prog σ Bool := do
  let context ← getContext this
  match context.state with
  | none => if context.finished then return false else throw (.runtimeError "No state selected")
  | some state => guarded (runRules v this state.rules)

def doActions : Prog σ Unit := do
  let context ← getContext this
  match context.state with
  | none => if context.finished then return () else throw (.runtimeError "No state selected")
  | some state =>
      discard (guarded (runActions v this state.actions false))
      discard (checkRules v this)

def setState (name : String) (withActions : Bool) : Prog σ Unit := do
  let stateId := lowercase name
  let context ← getContext this
  let ends := stateId = "end" ∨ stateId = "done"
  let named := { context with stateName := stateId }
  let selected := if ends then { named with state := none, finished := true } else named
  setContext this selected
  match (v.quest this).findState stateId with
  | none =>
      if ends then return ()
      else throw (.runtimeError ("Unknown quest state: " ++ stateId))
  | some state =>
      setContext this { selected with finished := stateId = "end", state := some state }
      v.beginState this name state
      if withActions then doActions v this else return ()

/-- The first rule with the name whose arguments pass the check. -/
def findRule (rule : String) (argCheck : List Variant → Prog σ Bool) : List Rule → Prog σ (Option Rule)
  | [] => return none
  | checkRule :: rules =>
      if checkRule.expr.function = rule then do
        if ← argCheck checkRule.expr.args then return some checkRule
        else findRule rule argCheck rules
      else findRule rule argCheck rules

def queryRule (rule : String) (argCheck : List Variant → Prog σ Bool) : Prog σ Bool := do
  let context ← getContext this
  match context.state with
  | none => return false
  | some state => return (← findRule rule argCheck state.rules).isSome

def triggerRule (rule : String) (argCheck : List Variant → Prog σ Bool) : Prog σ Bool := do
  let context ← getContext this
  match context.state with
  | none => return false
  | some state =>
      match ← findRule rule argCheck state.rules with
      | none => return false
      | some found =>
          discard (v.doAction this found.action)
          return true

end

def getGoal (this : ContextId) : Prog σ (Option Rule) := do
  let context ← getContext this
  return context.state.bind fun state => state.rules[state.goalRule]?

end Etheos.EOPlus
