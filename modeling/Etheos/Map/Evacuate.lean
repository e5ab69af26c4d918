import Etheos.Util.TimerFrames
import Mathlib.Algebra.Ring.Int.Defs

/-! The evacuation of a map. It counts down in the calls of a timer event, and sends those who are
left to jail in the last one. -/
namespace Etheos.Evacuation

open General
open Timers

section Model

variable {T : Type*}

/-- What is read of the configuration. `speed` is `EvacuateTick` where it is not made an `int`. -/
structure Config (T : Type*) where
  evacuateLength : Int
  evacuateStep : Int
  evacuateTick : Int
  evacuateSound : Int
  speed : T

/-- `int(EvacuateLength) / int(EvacuateTick)` -/
def Config.steps (config : Config T) : Int := config.evacuateLength.tdiv config.evacuateTick

def Config.ticksPerStep (config : Config T) : Int := config.evacuateStep.tdiv config.evacuateTick

/-- `access` is the `SourceAccess`. -/
structure Character where
  id : Nat
  access : Int
  deriving Repr, DecidableEq

def adminGuide : Int := 1

/-- `seconds` goes into the text `map_evacuate`. -/
inductive Effect
  | serverMsg (character : Nat) (seconds : Int)
  | playSound (character : Nat) (sound : Int)
  | jail (character : Nat)
  deriving Repr, DecidableEq

/-- What `map_evacuate` finds when it is called: who is on the map, whose warp to the jail throws, and what
the warps do with the timer. -/
structure Calling (T : Type*) where
  config : Config T
  characters : List Character
  throws : Character → Bool
  actions : List (Action T)

namespace Calling

variable (calling : Calling T)

/-- The loop of a countdown step. -/
def countdown (step : Int) : List Effect :=
  let ticksPerStep := calling.config.ticksPerStep
  calling.characters.flatMap fun character =>
    (if step.tmod ticksPerStep = 0
      then [.serverMsg character.id (step.tdiv ticksPerStep * calling.config.evacuateStep)] else []) ++
    [.playSound character.id calling.config.evacuateSound]

def evacChars : List Character := calling.characters.filter (·.access < adminGuide)

end Calling

/-- What a call of `map_evacuate` has done. The program does not write it down. -/
inductive Step (T : Type*)
  | countdown (calling : Calling T) (effects : List Effect)
  | jailed (calling : Calling T) (effects : List Effect)
  | abandoned (calling : Calling T)

/-- What has become of the last evacuation. `ticks` are the times of the ticks since it began. -/
structure Course (T : Type*) where
  length : Int
  now : T
  speed : T
  ticks : List T
  steps : List (Step T)

/-- What the steps of an evacuation depend on. -/
inductive Call (T : Type*)
  | evacuate (length : Int)
  | mapEvacuate (step : Int) (calling : Calling T)

/-- `records` are the records that are allocated, each with its `step`, and `params` are the ones that events
have been created for. `fault` says that the program has divided by zero, or used a record that is
not there. The last call is the first one of `calls`. -/
structure State (T : Type*) where
  timer : Timer T
  evacuateLock : Bool
  records : Table Nat Int
  params : Table EventId Nat
  fault : Bool
  last : Option (Course T)
  calls : List (Call T)

namespace State

def start : State T := ⟨.start, false, ∅, ∅, false, none, []⟩

variable (s : State T)

/-- Nobody else has the address of an event that is created for an evacuation. -/
def acts (actions : List (Action T)) : Option (State T) :=
  if actions.any fun action => (s.params.lookup action.event).isSome then none
  else (s.timer.acts actions).map fun timer => { s with timer }

def did (step : Step T) : State T :=
  { s with last := s.last.map fun course => { course with steps := course.steps ++ [step] } }

def mapEvacuate (r : Nat) (calling : Calling T) : Option (State T) :=
  match s.records.lookup r with
  | none => some { s with fault := true }
  | some step =>
      let s := { s with calls := .mapEvacuate step calling :: s.calls }
      if calling.config.evacuateTick = 0 then some { s with fault := true }
      else if 0 < step then
        if calling.config.ticksPerStep = 0 then some { s with fault := true }
        else
          let s := s.did (.countdown calling (calling.countdown step))
          some { s with records := s.records.insert r (step - 1) }
      else do
        let s ← s.acts calling.actions
        if calling.evacChars.any calling.throws then return s.did (.abandoned calling)
        let s := s.did (.jailed calling (calling.evacChars.map fun character => .jail character.id))
        return { s with evacuateLock := false, records := s.records.erase r }

/-- `Map::Evacuate`, with an event and a record at addresses that are free. -/
def evacuate (e : EventId) (r : Nat) (now : T) (calling : Calling T) : Option (State T) :=
  if s.evacuateLock then some s
  else
    let length := calling.config.steps
    let speed := calling.config.speed
    let s := { s with calls := .evacuate length :: s.calls }
    if calling.config.evacuateTick = 0 then some { s with fault := true }
    else if (s.records.lookup r).isSome then none
    else do
      let timer ← s.timer.acts [.create e ⟨false, speed, now, length⟩, .register e now]
      let s := { s with
        timer
        evacuateLock := true
        records := s.records.insert r length
        params := s.params.insert e r
        last := some ⟨length, now, speed, [], []⟩ }
      s.mapEvacuate r calling

/-- What other parts of the program do. -/
inductive Deed (T : Type*)
  | act (action : Action T)
  | evacuate (e : EventId) (r : Nat) (now : T) (calling : Calling T)

def deed : Deed T → Option (State T)
  | .act action => s.acts [action]
  | .evacuate e r now calling => s.evacuate e r now calling

def deeds (s : State T) : List (Deed T) → Option (State T)
  | [] => some s
  | deed :: deeds => (s.deed deed).bind (·.deeds deeds)

/-- What happens when an event is called, by its callback. -/
structure Callback (T : Type*) where
  deeds : List (Deed T)
  calling : Calling T

def callback (e : EventId) (callback : Callback T) : Option (State T) :=
  match s.params.lookup e with
  | some r => s.mapEvacuate r callback.calling
  | none => s.deeds callback.deeds

section Tick

variable [Add T] [LT T] [DecidableLT T] (now : T) (callbacks : EventId → Callback T)

/-- One turn of the loop of `Timer::Tick`. -/
def visit (s : State T) (e : EventId) : Option (State T) :=
  if e ∉ s.timer.timers then some s
  else do
    let event ← s.timer.events.lookup e
    if event.lasttime + event.speed < now then
      let timer ← s.timer.spend e event
      let s ← { s with timer := timer.note (.called e) }.callback e (callbacks e)
      let event ← s.timer.events.lookup e
      if event.manager then return s
      return { s with timer := { s.timer with events := s.timer.events.erase e }, params := s.params.erase e }
    else return s

def visits (s : State T) : List EventId → Option (State T)
  | [] => some s
  | e :: rest => (s.visit now callbacks e).bind (visits · rest)

/-- `Timer::Tick` -/
def tick : Option (State T) :=
  let timer := if s.timer.changed then { s.timer with execlist := s.timer.timers, changed := false } else s.timer
  let last := s.last.map fun course => { course with ticks := course.ticks ++ [now] }
  { s with timer := timer.note (.ticked now), last }.visits now callbacks timer.execlist

end Tick

end State

/-- Something is done between the ticks, or there is a tick. -/
inductive Happening (T : Type*)
  | deed (deed : State.Deed T)
  | tick (now : T) (callbacks : EventId → State.Callback T)

def happen [Add T] [LT T] [DecidableLT T] (s : State T) : Happening T → Option (State T)
  | .deed deed => s.deed deed
  | .tick now callbacks => s.tick now callbacks

end Model

end Etheos.Evacuation
