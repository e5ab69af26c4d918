import Etheos.General.Run
import Etheos.Quest.Discipline

/-! The counter of the recursion over whole calls, for every behaviour of the
virtual functions. -/
namespace Etheos.EOPlus

open General

/-- The ways back from a virtual function into a context. -/
inductive Reentry
  | setState (this : ContextId) (name : String) (withActions : Bool)
  | doActions (this : ContextId)
  | checkRules (this : ContextId)

/-- What a virtual function does: it goes on with what a call has returned or
thrown. -/
inductive Behaviour
  | answer (value : Bool)
  | raise (what : String)
  | reenter (call : Reentry) (next : Except Fault Bool → Behaviour)

/-- The behaviour of the virtual functions, for each number of calls made before. -/
structure Script where
  quest : ContextId → Quest
  beginState : Nat → ContextId → String → State → Option String
  doAction : Nat → ContextId → Action → Behaviour
  checkRule : Nat → ContextId → Expression → Behaviour

/-- The state counts the calls of virtual functions. -/
abbrev Clock := Nat

def Reentry.run (v : Virtual Clock) : Reentry → Prog Clock Bool
  | setState this name withActions => do
      EOPlus.setState v this name withActions
      return true
  | doActions this => do
      EOPlus.doActions v this
      return true
  | checkRules this => EOPlus.checkRules v this

/-- The result of a call, for a caller that catches every exception. -/
def attempt (x : Prog Clock Bool) : Prog Clock (Except Fault Bool) :=
  tryCatch (do return .ok (← x)) fun e =>
    if e = .exhausted then throw e else return .error e

def Behaviour.run (v : Virtual Clock) : Behaviour → Prog Clock Bool
  | answer value => return value
  | raise what => throw (.runtimeError what)
  | reenter call next => do
      let result ← attempt (call.run v)
      (next result).run v

def tick : Prog Clock Nat := do
  let s ← get
  set { s with rest := s.rest + 1 }
  return s.rest

namespace Script

def beginning (script : Script) (this : ContextId) (name : String) (state : State) :
    Prog Clock Unit := do
  let now ← tick
  match script.beginState now this name state with
  | none => return ()
  | some what => throw (.runtimeError what)

/-- The subclass with these behaviours, whose calls are followed `fuel` deep. -/
def virtual (script : Script) : Nat → Virtual Clock
  | 0 =>
    { quest := script.quest
      beginState := script.beginning
      doAction := fun _ _ => throw .exhausted
      checkRule := fun _ _ => throw .exhausted }
  | fuel + 1 =>
    { quest := script.quest
      beginState := script.beginning
      doAction := fun this action => do
        let now ← tick
        (script.doAction now this action).run (script.virtual fuel)
      checkRule := fun this expr => do
        let now ← tick
        (script.checkRule now this expr).run (script.virtual fuel) }

end Script

/-- A call from outside. The check of the arguments may throw. -/
inductive TopLevel
  | setState (this : ContextId) (name : String) (withActions : Bool)
  | doActions (this : ContextId)
  | checkRules (this : ContextId)
  | triggerRule (this : ContextId) (rule : String) (argCheck : List Variant → Option Bool)

def TopLevel.run (v : Virtual Clock) : TopLevel → Prog Clock Bool
  | setState this name withActions => (Reentry.setState this name withActions).run v
  | doActions this => (Reentry.doActions this).run v
  | checkRules this => (Reentry.checkRules this).run v
  | triggerRule this rule argCheck =>
      EOPlus.triggerRule v this rule fun args =>
        match argCheck args with
        | some ok => return ok
        | none => throw .outOfRange

/-- The counter at an activation depth of `m`, where it was `d` outside. Each
change has lowered it by one. -/
structure Level (d : Int) (m : Nat) (s : Runtime Clock) : Prop where
  nesting : s.nesting = m
  counter : s.recursiveDepth + s.changes = d + m
  deepest : s.nesting ≤ s.deepest
  bound : 0 ≤ d → (s.deepest : Int) ≤ maxRecursion + s.changes

/-- A call is given up as too deep only if some action has reported a change. -/
def Thrown (room : Prop) (d : Int) (m : Nat) (e : Fault) (s : Runtime Clock) : Prop :=
  Level d m s ∧ (e = .exhausted → room → s.changes ≠ 0)

theorem Level.push {d : Int} {m : Nat} {s : Runtime Clock} (h : Level d m s)
    (hRoom : ¬maxRecursion < s.recursiveDepth + 1) : Level d (m + 1) s.push := by
  obtain ⟨hNesting, hCounter, hDeepest, hBound⟩ := h
  refine ⟨?_, ?_, ?_, fun hStart => ?_⟩
  · change s.nesting + 1 = m + 1
    omega
  · change s.recursiveDepth + 1 + s.changes = d + (m + 1 : Nat)
    omega
  · change s.nesting + 1 ≤ max s.deepest (s.nesting + 1)
    omega
  · have hBound := hBound hStart
    change (max s.deepest (s.nesting + 1) : Nat) ≤ maxRecursion + s.changes
    omega

theorem Level.pop {d : Int} {m : Nat} {s : Runtime Clock} (h : Level d (m + 1) s) :
    Level d m s.pop := by
  obtain ⟨hNesting, hCounter, hDeepest, hBound⟩ := h
  refine ⟨?_, ?_, ?_, hBound⟩
  · change s.nesting - 1 = m
    omega
  · change s.recursiveDepth - 1 + s.changes = d + m
    omega
  · change s.nesting - 1 ≤ s.deepest
    omega

/-- A change lowers the counter below the depth that it stands for. -/
theorem Level.change {d : Int} {m : Nat} {s : Runtime Clock} (h : Level d m s) :
    Level d m s.change := by
  obtain ⟨hNesting, hCounter, hDeepest, hBound⟩ := h
  refine ⟨hNesting, ?_, hDeepest, fun hStart => ?_⟩
  · change s.recursiveDepth - 1 + (s.changes + 1 : Nat) = d + m
    omega
  · have hBound := hBound hStart
    change (s.deepest : Int) ≤ maxRecursion + (s.changes + 1 : Nat)
    omega

/-- Nothing has to be known about the states that are selected. -/
def balance (room : Prop) (d : Int) : Discipline Clock where
  holds := Level d
  thrown := Thrown room d
  state _ _ := True
  selected _ _ := trivial
  setContext hs _ := ⟨hs.nesting, hs.counter, hs.deepest, hs.bound⟩
  push := Level.push
  pop := Level.pop
  unwind hs := ⟨hs.1.pop, hs.2⟩
  change := Level.change
  raise hs := ⟨hs, nofun⟩

abbrev Balanced {α : Type} (room : Prop) (d : Int) (m : Nat) (x : Prog Clock α) : Prop :=
  (balance room d).Keeps m x

/-- The virtual functions are balanced where they are called. -/
structure Virtual.Balanced (v : Virtual Clock) (room : Prop) (d : Int) (m : Nat) : Prop where
  doAction (this : ContextId) (action : Action) : EOPlus.Balanced room d m (v.doAction this action)
  checkRule (this : ContextId) (expr : Expression) :
    EOPlus.Balanced room d m (v.checkRule this expr)

section Calls

variable {α : Type} {room : Prop} {d : Int} {m : Nat} {v : Virtual Clock} {this : ContextId}

theorem Virtual.Balanced.admits (hv : v.Balanced room d m) : (balance room d).Admits v m where
  action _ _ := hv.doAction _ _
  condition _ _ _ := hv.checkRule _ _
  rule _ _ := hv.checkRule _ _
  ruleAction _ _ := hv.doAction _ _

theorem tick_balanced : Balanced room d m tick :=
  Triple.read fun s hs => Triple.bind (Q := fun _ => Level d m)
    (Triple.modify (g := fun _ => { s with rest := s.rest + 1 }) fun _ _ =>
      ⟨hs.nesting, hs.counter, hs.deepest, hs.bound⟩)
    fun _ => Triple.ret fun _ hs => hs

theorem beginning_balanced (script : Script) (name : String) (state : State) :
    Balanced room d m (script.beginning this name state) := by
  refine tick_balanced.bind fun now => ?_
  cases script.beginState now this name state with
  | none => exact .ret
  | some what => exact .raise

theorem attempt_balanced {x : Prog Clock Bool} (hx : Balanced room d m x) :
    Balanced room d m (attempt x) := by
  refine Triple.handle (hx.bind fun _ => .ret) fun e => Triple.branch (fun _ => ?_) fun _ => ?_
  · exact Triple.raise fun _ hs => hs
  · exact Triple.ret fun _ hs => hs.1

theorem reentry_balanced (hv : v.Balanced room d (m + 1))
    (hBegin : ∀ this name state, Balanced room d m (v.beginState this name state))
    (call : Reentry) : Balanced room d m (call.run v) := by
  cases call with
  | setState this name withActions =>
      have hFound name st (_ : (v.quest this).findState name = some st) :
          (balance room d).state this st := trivial
      have hSet := Discipline.setState_keeps hv.admits hFound (fun name st _ => hBegin this name st)
      exact (hSet name withActions).bind fun _ => .ret
  | doActions this => exact (Discipline.doActions_keeps hv.admits).bind fun _ => .ret
  | checkRules this => exact Discipline.checkRules_keeps hv.admits

theorem behaviour_balanced (hv : v.Balanced room d (m + 1))
    (hBegin : ∀ this name state, Balanced room d m (v.beginState this name state))
    (behaviour : Behaviour) : Balanced room d m (behaviour.run v) := by
  induction behaviour with
  | answer value => exact .ret
  | raise what => exact .raise
  | reenter call next ih =>
      exact (attempt_balanced (reentry_balanced hv hBegin call)).bind ih

end Calls

/-- The calls are followed deeper than the guard lets them go. -/
def Room (d : Int) (depth : Nat) : Prop := 0 ≤ d ∧ maxRecursion < depth

theorem begin_balanced (script : Script) {room : Prop} {d : Int} {m : Nat} (fuel : Nat)
    (this : ContextId) (name : String) (state : State) :
    Balanced room d m ((script.virtual fuel).beginState this name state) := by
  cases fuel with
  | zero => exact beginning_balanced script name state
  | succ fuel => exact beginning_balanced script name state

/-- The induction is on the depth that the calls are followed to. Where they are
given up, the guard has let more than `maxRecursion` activations pass. -/
theorem virtual_balanced (script : Script) (d : Int) (m fuel : Nat) :
    (script.virtual fuel).Balanced (Room d (m + fuel)) d m := by
  induction fuel generalizing m with
  | zero =>
      have hGivenUp : Balanced (Room d (m + 0)) d m (throw .exhausted : Prog Clock Bool) := by
        refine Triple.raise fun s hs => ⟨hs, fun _ hRoom => ?_⟩
        have hBound := hs.bound hRoom.1
        have hNesting := hs.nesting
        have hDeepest := hs.deepest
        have hDeep := hRoom.2
        omega
      exact ⟨fun _ _ => hGivenUp, fun _ _ => hGivenUp⟩
  | succ fuel ih =>
      have hInner := ih (m + 1)
      rw [Nat.add_right_comm] at hInner
      have hBegin this name state :
          Balanced (Room d (m + fuel + 1)) d m ((script.virtual fuel).beginState this name state) :=
        begin_balanced script fuel this name state
      exact ⟨fun _ _ => tick_balanced.bind fun _ => behaviour_balanced hInner hBegin _,
        fun _ _ => tick_balanced.bind fun _ => behaviour_balanced hInner hBegin _⟩

theorem Thrown.mono {room room' : Prop} {d : Int} {m : Nat} {e : Fault} {s : Runtime Clock}
    (hRoom : room' → room) (h : Thrown room d m e s) : Thrown room' d m e s :=
  ⟨h.1, fun hThrown hHere => h.2 hThrown (hRoom hHere)⟩

theorem topLevel_balanced (script : Script) (d : Int) (fuel : Nat) (call : TopLevel) :
    Balanced (Room d fuel) d 0 (call.run (script.virtual fuel)) := by
  have hReentry (call : Reentry) : Balanced (Room d fuel) d 0 (call.run (script.virtual fuel)) := by
    have hBalanced := reentry_balanced (virtual_balanced script d 1 fuel)
      (begin_balanced script fuel) call
    refine hBalanced.conseq (fun _ => id) (fun _ _ => id) fun _ _ => Thrown.mono fun hRoom => ?_
    have hDeep := hRoom.2
    exact ⟨hRoom.1, by omega⟩
  cases call with
  | setState this name withActions => exact hReentry (.setState this name withActions)
  | doActions this => exact hReentry (.doActions this)
  | checkRules this => exact hReentry (.checkRules this)
  | triggerRule this rule argCheck =>
      have hCalls := virtual_balanced script d 0 fuel
      rw [Nat.zero_add] at hCalls
      refine Discipline.triggerRule_keeps hCalls.admits fun _ _ checked _ _ => ?_
      cases argCheck checked.expr.args with
      | none => exact Triple.raise fun _ hs => ⟨hs, nofun⟩
      | some ok => exact .ret

/-- The exception that a call throws, and the state that it leaves. -/
def TopLevel.outcome (call : TopLevel) (v : Virtual Clock) (s : Runtime Clock) :
    Option Fault × Runtime Clock :=
  match call.run v s with
  | .ok _ s' => (none, s')
  | .error e s' => (some e, s')

/-- Another call is made, also after an exception. -/
def next (v : Virtual Clock) (s : Runtime Clock) (call : TopLevel) : Option (Runtime Clock) :=
  some (call.outcome v s).2

/-- A call ends, with the counter as before, and the activations in it have not
been nested too deep. -/
def Restores (v : Virtual Clock) (call : TopLevel) (s : Runtime Clock) : Prop :=
  (call.outcome v s).1 ≠ some .exhausted ∧
    (call.outcome v s).2.recursiveDepth = s.recursiveDepth ∧
      (call.outcome v s).2.deepest ≤ maxRecursion

def AllRestore (v : Virtual Clock) : List TopLevel → Runtime Clock → Prop
  | [], _ => True
  | call :: calls, s => Restores v call s ∧ AllRestore v calls (call.outcome v s).2

/-- Nothing has been called yet. -/
def Runtime.start (recursiveDepth : Nat) (contexts : ContextId → Context) : Runtime Clock :=
  ⟨recursiveDepth, contexts, 0, 0, 0, 0⟩

theorem outcome_level (script : Script) {d : Int} {s : Runtime Clock} (hLevel : Level d 0 s)
    (fuel : Nat) (call : TopLevel) :
    Level d 0 (call.outcome (script.virtual fuel) s).2 ∧
      ((call.outcome (script.virtual fuel) s).1 = some .exhausted → Room d fuel →
        (call.outcome (script.virtual fuel) s).2.changes ≠ 0) := by
  have hBalanced := topLevel_balanced script d fuel call s hLevel
  unfold TopLevel.outcome
  cases hRun : call.run (script.virtual fuel) s with
  | ok answer s' =>
      rw [hRun] at hBalanced
      exact ⟨hBalanced, nofun⟩
  | error e s' =>
      rw [hRun] at hBalanced
      exact ⟨hBalanced.1, fun hThrown => hBalanced.2 (Option.some.inj hThrown)⟩

/-- The changes in a call are what the counter is short of behind it. -/
theorem restores_iff (script : Script) {d : Int} {s : Runtime Clock} (hLevel : Level d 0 s)
    (hUnchanged : s.changes = 0) {fuel : Nat} (hRoom : Room d fuel) (call : TopLevel) :
    Restores (script.virtual fuel) call s ↔
      (call.outcome (script.virtual fuel) s).2.changes = 0 := by
  obtain ⟨hAfter, hEnds⟩ := outcome_level script hLevel fuel call
  have hBefore := hLevel.counter
  have hBehind := hAfter.counter
  have hBound := hAfter.bound hRoom.1
  constructor
  · intro ⟨_, hCounter, _⟩
    omega
  · intro hNone
    refine ⟨fun hExhausted => hEnds hExhausted hRoom hNone, ?_, ?_⟩
    · omega
    · omega

/-- Over any sequence of calls, every one of them leaves the counter as it was
and is held back at `maxRecursion`, exactly if no action of an action list ever
reports a change. -/
theorem allRestore_iff (script : Script) (start further : Nat) (contexts : ContextId → Context)
    (calls : List TopLevel) :
    AllRestore (script.virtual (101 + further)) calls (.start start contexts) ↔
      Always (next (script.virtual (101 + further))) (fun s => s.changes = 0)
        (.start start contexts) calls := by
  have hRoom : Room start (101 + further) := by
    unfold Room maxRecursion
    omega
  have hLevel : Level start 0 (.start start contexts) := by
    refine ⟨rfl, ?_, Nat.le_refl 0, fun _ => ?_⟩
    · change (start : Int) + 0 = start + 0
      omega
    · change (0 : Int) ≤ 100
      omega
  have hUnchanged : (Runtime.start start contexts).changes = 0 := rfl
  generalize Runtime.start start contexts = s at hLevel hUnchanged ⊢
  induction calls generalizing s with
  | nil =>
      rw [always_nil]
      exact iff_of_true trivial hUnchanged
  | cons call calls ih =>
      rw [always_cons rfl, AllRestore, restores_iff script hLevel hUnchanged hRoom]
      obtain ⟨hAfter, -⟩ := outcome_level script hLevel (101 + further) call
      constructor
      · intro ⟨hNone, hRest⟩
        exact ⟨hUnchanged, (ih _ hAfter hNone).mp hRest⟩
      · intro ⟨_, hRest⟩
        have hNone := hRest [] _ List.nil_prefix rfl
        exact ⟨hNone, (ih _ hAfter hNone).mpr hRest⟩

/-- Every action reports a change, and nothing is called again. -/
def changing : Script where
  quest _ := ⟨false, []⟩
  beginState _ _ _ _ := none
  doAction _ _ _ := .answer true
  checkRule _ _ _ := .answer false

/-- One action that reports a change leaves the counter below zero. -/
theorem not_allRestore_changing :
    ¬AllRestore (changing.virtual 101) [.doActions ⟨1, 0⟩]
      (.start 0 fun _ => ⟨some ⟨"", [], [⟨.none, ⟨"", []⟩, ⟨"end", []⟩⟩], 0⟩, "begin", false⟩) := by
  intro ⟨⟨_, hCounter, _⟩, _⟩
  revert hCounter
  decide

end Etheos.EOPlus
