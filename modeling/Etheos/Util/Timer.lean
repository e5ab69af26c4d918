import Mathlib.Data.List.Sort
import Etheos.General.Run
import Etheos.General.Tables

/-! The timer, and the events that are registered with it. Time is any type that is compared and
added as the program does, and not always exactly. -/
namespace Etheos.Timers

open General

/-- An address. -/
abbrev EventId := Nat

/-- The value of `lifetime` of an event that never expires. -/
def forever : Int := -1

section Model

variable {T : Type*}

/-- `manager` says whether it is set. The callback is given by what it does. -/
structure TimeEvent (T : Type*) where
  manager : Bool
  speed : T
  lasttime : T
  lifetime : Int

/-- What `Tick` changes in an event that is due. -/
def TimeEvent.spend [Add T] (event : TimeEvent T) : TimeEvent T :=
  { event with
    lasttime := event.lasttime + event.speed
    lifetime := if event.lifetime = forever then event.lifetime else event.lifetime - 1 }

/-- What has happened. The program does not write it down. -/
inductive Note (T : Type*)
  | registered (e : EventId) (lifetime : Int) (now speed : T)
  | unregistered (e : EventId)
  | ticked (now : T)
  | called (e : EventId)

/-- The last note is the first one of `log`. -/
structure Timer (T : Type*) where
  events : Table EventId (TimeEvent T)
  timers : List EventId
  execlist : List EventId
  changed : Bool
  log : List (Note T)

/-- What a callback or another part of the program does with events. An event can be created wherever
there is none. -/
inductive Action (T : Type*)
  | create (e : EventId) (event : TimeEvent T)
  | register (e : EventId) (now : T)
  | unregister (e : EventId)

namespace Timer

def start : Timer T := ⟨∅, [], [], true, []⟩

variable (s : Timer T)

def note (note : Note T) : Timer T := { s with log := note :: s.log }

/-- `Register`, at the time that `GetTime` gives. -/
def register (e : EventId) (now : T) : Option (Timer T) := do
  let event ← s.events.lookup e
  if event.lifetime = 0 then return s
  return {
    events := s.events.insert e { event with lasttime := now, manager := true }
    timers := if e ∈ s.timers then s.timers else s.timers.orderedInsert (· ≤ ·) e
    execlist := s.execlist
    changed := true
    log := .registered e event.lifetime now event.speed :: s.log }

/-- `Unregister`, of which only `act` takes note. -/
def unregister (e : EventId) : Option (Timer T) := do
  let event ← s.events.lookup e
  return {
    events := s.events.insert e { event with manager := false }
    timers := s.timers.erase e
    execlist := s.execlist
    changed := true
    log := s.log }

/-- An event that is not there any more cannot be registered or unregistered. -/
def act : Action T → Option (Timer T)
  | .create e event =>
      if (s.events.lookup e).isSome then none
      else some { s with events := s.events.insert e { event with manager := false } }
  | .register e now => s.register e now
  | .unregister e => (s.unregister e).map (·.note (.unregistered e))

def acts (s : Timer T) : List (Action T) → Option (Timer T)
  | [] => some s
  | action :: actions => (s.act action).bind (acts · actions)

section Tick

variable [Add T] [LT T] [DecidableLT T] (now : T) (callbacks : EventId → List (Action T))

/-- What is done to a due event before its callback is called. -/
def spend (s : Timer T) (e : EventId) (event : TimeEvent T) : Option (Timer T) :=
  let s := { s with events := s.events.insert e event.spend }
  if event.spend.lifetime = 0 then s.unregister e else some s

/-- One turn of the loop. A callback that throws has done what it did up to there. -/
def visit (s : Timer T) (e : EventId) : Option (Timer T) :=
  if e ∉ s.timers then some s
  else do
    let event ← s.events.lookup e
    if event.lasttime + event.speed < now then
      let s ← s.spend e event
      let s ← (s.note (.called e)).acts (callbacks e)
      let event ← s.events.lookup e
      if event.manager then return s else return { s with events := s.events.erase e }
    else return s

def visits (s : Timer T) : List EventId → Option (Timer T)
  | [] => some s
  | e :: rest => (s.visit now callbacks e).bind (visits · rest)

/-- `Tick`. -/
def tick : Option (Timer T) :=
  let s := if s.changed then { s with execlist := s.timers, changed := false } else s
  (s.note (.ticked now)).visits now callbacks s.execlist

end Tick

end Timer

/-- Something is done between the ticks, or there is a tick, for which the callbacks say what they do. -/
inductive Happening (T : Type*)
  | act (action : Action T)
  | tick (now : T) (callbacks : EventId → List (Action T))

def happen [Add T] [LT T] [DecidableLT T] (s : Timer T) : Happening T → Option (Timer T)
  | .act action => s.act action
  | .tick now callbacks => s.tick now callbacks

end Model

end Etheos.Timers
