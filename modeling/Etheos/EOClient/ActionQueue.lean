import Mathlib.Data.Rat.Defs
import Etheos.General.Run

/-! The action queue of a client. What is received goes through it as it comes, and what waits for a
handler goes through it a second time. -/
namespace Etheos.ActionQueues

open General

structure PacketReader where
  family : UInt8
  action : UInt8
  data : List UInt8
  deriving Repr, DecidableEq

/-- `PACKET_INTERNAL`. -/
def internal : UInt8 := 0

/-- `PACKET_INTERNAL_NULL` and `PACKET_INTERNAL_WARP`. -/
def internalNull : UInt8 := 128
def internalWarp : UInt8 := 129

inductive ClientState
  | uninitialized
  | initialized
  | loggedIn
  | playing
  deriving Repr, DecidableEq

/-- The flags of `AllowState`. -/
structure AllowStates where
  uninitialized : Bool
  menu : Bool
  characterMenu : Bool
  loggingIn : Bool
  playing : Bool
  outOfBand : Bool
  deriving Repr, DecidableEq

inductive FunctionType
  | clientFn
  | playerFn
  | characterFn
  deriving Repr, DecidableEq

section Model

variable {T : Type*}

structure PacketHandler (T : Type*) where
  fnType : FunctionType
  allowStates : AllowStates
  delay : T

/-- `ActionQueue_Action`. -/
structure Action (T : Type*) where
  reader : PacketReader
  time : T
  autoQueue : Bool
  deriving DecidableEq

structure Config (T : Type*) where
  handlers : UInt8 → UInt8 → Option (PacketHandler T)
  packetQueueMax : Nat

/-- `player` and `character` say whether there are such. The last three fields are not in the program: what has
been received and what has been handled, and how many actions have been taken from the queue. -/
structure EOClient (T : Type*) where
  connected : Bool
  state : ClientState
  player : Bool
  character : Bool
  queue : List (Action T)
  next : T
  arrived : List PacketReader
  handled : List PacketReader
  popped : Nat
  deriving DecidableEq

/-- What a handler leaves behind. One that throws leaves the client closed. -/
structure Effect where
  connected : Bool
  state : ClientState
  player : Bool
  character : Bool
  respawns : Nat
  deriving DecidableEq

namespace EOClient

/-- A client that has just come. -/
def start (next : T) : EOClient T := ⟨true, .uninitialized, false, false, [], next, [], [], 0⟩

variable (s : EOClient T)

def close : EOClient T := { s with connected := false }

def addAction (reader : PacketReader) (time : T) (autoQueue : Bool) : EOClient T :=
  { s with queue := s.queue ++ [⟨reader, time, autoQueue⟩] }

def stateCheck (allowStates : AllowStates) : Bool :=
  match s.state with
  | .uninitialized => allowStates.uninitialized
  | .initialized => allowStates.menu
  | .loggedIn => if s.character then allowStates.loggingIn else allowStates.characterMenu
  | .playing => allowStates.playing

variable [OfScientific T]

/-- `DeathRespawn`, as far as it is about the queue. -/
def deathRespawn : EOClient T :=
  (s.addAction ⟨internal, internalNull, []⟩ 1.5 false).addAction ⟨internal, internalWarp, []⟩ 0.0 false

def respawn (s : EOClient T) : Nat → EOClient T
  | 0 => s
  | n + 1 => s.deathRespawn.respawn n

/-- A packet that could be decoded. -/
def execute (reader : PacketReader) (inSequence : Bool) : EOClient T :=
  if s.connected = false then s
  else if reader.family = internal then s.close
  else if inSequence = false then s.close
  else { s.addAction reader 0.02 true with arrived := s.arrived ++ [reader] }

/-- A handler is called. -/
def call (reader : PacketReader) (effect : Effect) : EOClient T :=
  { s.respawn effect.respawns with
    connected := effect.connected
    state := effect.state
    player := effect.player
    character := effect.character
    handled := s.handled ++ [reader] }

def handle (cfg : Config T) (reader : PacketReader) (fromQueue : Bool) (effect : Effect) : EOClient T :=
  match cfg.handlers reader.family reader.action with
  | none => s
  | some handler =>
      if s.stateCheck handler.allowStates = false then s
      else if fromQueue = false ∧ handler.allowStates.playing = true ∧ handler.allowStates.outOfBand = false then
        s.addAction reader handler.delay false
      else
        match handler.fnType with
        | .clientFn => s.call reader effect
        | .playerFn => if s.player then s.call reader effect else s.close
        | .characterFn => if s.player && s.character then s.call reader effect else s.close

variable [Add T] [LE T] [DecidableLE T]

/-- `server_pump_queue`, for one client. -/
def pumpQueue (cfg : Config T) (now : T) (effect : Effect) : EOClient T :=
  if s.connected = false then s
  else if cfg.packetQueueMax < s.queue.length then s.close
  else
    match s.queue with
    | [] => s
    | action :: queue =>
        if s.next ≤ now then
          let s := { s with queue, popped := s.popped + 1 }
          { s.handle cfg action.reader (!action.autoQueue) effect with next := now + action.time }
        else s

end EOClient

/-- A packet comes, the queue is pumped, the character dies, or the client is changed by something else. -/
inductive Event (T : Type*)
  | execute (reader : PacketReader) (inSequence : Bool)
  | pumpQueue (now : T) (effect : Effect)
  | deathRespawn
  | change (connected : Bool) (state : ClientState) (player character : Bool)

def step [OfScientific T] [Add T] [LE T] [DecidableLE T] (cfg : Config T) (s : EOClient T) :
    Event T → Option (EOClient T)
  | .execute reader inSequence => some (s.execute reader inSequence)
  | .pumpQueue now effect => some (s.pumpQueue cfg now effect)
  | .deathRespawn => some s.deathRespawn
  | .change connected state player character => some { s with connected, state, player, character }

end Model

end Etheos.ActionQueues
