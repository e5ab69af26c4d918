import Etheos.EOClient.Handlers
import Etheos.General.Run
import Mathlib.Logic.Function.Basic

/-! From a connection to a character in the game. A client holds a player once its password has been checked on a
worker thread, the player selects one of its characters, and the handlers of packets are given what is there. -/
namespace Etheos.Dispatch

open General
open ActionQueues (ClientState AllowStates PacketHandler)

abbrev ClientId := Nat
abbrev PlayerId := Nat
abbrev CharId := Nat

structure EOClient where
  connected : Bool
  state : ClientState
  asyncOpPending : Bool
  player : Option PlayerId
  deriving Repr, DecidableEq

structure Player where
  client : Option ClientId
  character : Option CharId
  characters : List CharId
  deriving Repr, DecidableEq

structure Character where
  player : PlayerId
  online : Bool
  trading : Bool
  tradePartner : Option CharId
  deriving Repr, DecidableEq

inductive Kind
  | login
  | createAccount
  | changePassword
  deriving Repr, DecidableEq

/-- `called` is set when the callbacks of the result have run, and the flag of the client is still to be cleared. -/
structure Operation where
  client : ClientId
  kind : Kind
  called : Bool
  deriving Repr, DecidableEq

/-- What is deleted is no longer found. `characters` are those of the world, and the next object that is made is
`fresh`. -/
structure Server where
  client : ClientId → Option EOClient
  player : PlayerId → Option Player
  character : CharId → Option Character
  characters : List CharId
  operations : List Operation
  fresh : Nat

/-- Why there is nobody to be called. The first is a null pointer, the others are exceptions. -/
inductive Fault
  | noPlayer
  | playerBeforeLogin
  | characterBeforeLogin
  | characterBeforeSelection
  deriving Repr, DecidableEq

/-- Who is given the packet. -/
inductive Callee
  | nobody
  | queued
  | client
  | player (p : PlayerId)
  | character (x : CharId)
  deriving Repr, DecidableEq

def EOClient.new : EOClient := ⟨true, .uninitialized, false, none⟩

/-- Not in a trade. -/
def Character.alone (character : Character) : Character := { character with trading := false, tradePartner := none }

namespace Server

variable (s : Server)

def start : Server := ⟨fun _ => none, fun _ => none, fun _ => none, [], [], 0⟩

def setClient (c : ClientId) (client : EOClient) : Server :=
  { s with client := Function.update s.client c (some client) }

def setPlayer (p : PlayerId) (player : Player) : Server :=
  { s with player := Function.update s.player p (some player) }

def setCharacter (x : CharId) (character : Character) : Server :=
  { s with character := Function.update s.character x (some character) }

def stateCheck (client : EOClient) (allowStates : AllowStates) : Except Fault Bool :=
  match client.state with
  | .uninitialized => .ok allowStates.uninitialized
  | .initialized => .ok allowStates.menu
  | .loggedIn =>
      match client.player.bind s.player with
      | none => .error .noPlayer
      | some player => .ok (if player.character.isSome then allowStates.loggingIn else allowStates.characterMenu)
  | .playing => .ok allowStates.playing

/-- The call of a handler that is registered and allowed. -/
def call (client : EOClient) (handler : PacketHandler ℚ) : Except Fault Callee :=
  match handler.fnType with
  | .clientFn => .ok .client
  | .playerFn =>
      match client.player with
      | none => .error .playerBeforeLogin
      | some p => .ok (.player p)
  | .characterFn =>
      match client.player.bind s.player with
      | none => .error .characterBeforeLogin
      | some player =>
          match player.character with
          | none => .error .characterBeforeSelection
          | some x => .ok (.character x)

def handle (client : EOClient) (family action : UInt8) (fromQueue : Bool) : Except Fault Callee :=
  match handlers family action with
  | none => .ok .nobody
  | some handler => do
      if ← s.stateCheck client handler.allowStates then
        if fromQueue = false ∧ handler.allowStates.playing = true ∧ handler.allowStates.outOfBand = false then
          return .queued
        else s.call client handler
      else return .nobody

/-- The handler that the packet comes to, if the client is there and connected. -/
def called (c : ClientId) (family : PacketFamily) (action : PacketAction) : Option Callee :=
  match s.client c with
  | some client =>
      if client.connected then (s.handle client family.toByte action.toByte true).toOption else none
  | none => none

def modifyClient (c : ClientId) (change : EOClient → EOClient) : Server :=
  match s.client c with
  | some client => s.setClient c (change client)
  | none => s

def modifyPlayer (p : PlayerId) (change : Player → Player) : Server :=
  match s.player p with
  | some player => s.setPlayer p (change player)
  | none => s

def modifyCharacter (x : CharId) (change : Character → Character) : Server :=
  match s.character x with
  | some character => s.setCharacter x (change character)
  | none => s

/-- `character->player->client->state = EOClient::Playing`. -/
def setPlaying (character : Character) : Server :=
  match (s.player character.player).bind (·.client) with
  | some c => s.modifyClient c fun client => { client with state := .playing }
  | none => s

/-- The end of a trade, when one of the two leaves. -/
def leaveTrade (x : CharId) (character : Character) : Server :=
  match character.trading, character.tradePartner, character.tradePartner.bind s.character with
  | true, some partner, some other =>
      let s := (s.setPlaying character).setPlaying other
      (s.modifyCharacter partner (·.alone)).modifyCharacter x (·.alone)
  | _, _, _ => s

/-- `Character::Logout`. -/
def logout (x : CharId) : Server :=
  match s.character x with
  | none => s
  | some character =>
      if character.online then
        let s := (s.leaveTrade x character).modifyCharacter x fun character => { character with online := false }
        { s with characters := s.characters.filter (· ≠ x) }
      else s

/-- `World::Login`. -/
def login (x : CharId) : Server :=
  { s.modifyCharacter x fun character => { character with online := true } with characters := s.characters ++ [x] }

/-- A character is deleted. -/
def deleteCharacter (x : CharId) : Server :=
  let s := s.logout x
  { s with character := Function.update s.character x none }

/-- `Player::Logout` in its destructor. -/
def deletePlayer (p : PlayerId) (player : Player) : Server :=
  let s := player.characters.foldl deleteCharacter s
  { s with player := Function.update s.player p none }

/-- The end of a client. -/
def bury (c : ClientId) (client : EOClient) : Server :=
  let s :=
    match client.player with
    | none => s
    | some p =>
        match s.player p with
        | none => s
        | some player => s.deletePlayer p player
  { s with client := Function.update s.client c none }

/-- The `Execute` of an operation. Its exception is caught by the loop over the queues. -/
def execute (c : ClientId) (client : EOClient) (kind : Kind) : Server :=
  if client.asyncOpPending then s.setClient c { client with connected := false, asyncOpPending := false }
  else
    { s.setClient c { client with asyncOpPending := true } with operations := s.operations ++ [⟨c, kind, false⟩] }

def addCharacter (p : PlayerId) : Server :=
  { s with character := Function.update s.character s.fresh (some ⟨p, false, false, none⟩), fresh := s.fresh + 1 }

/-- A character of the account, or one that is new. -/
def newCharacter (p : PlayerId) : Server :=
  (s.addCharacter p).modifyPlayer p fun player => { player with characters := player.characters ++ [s.fresh] }

def addPlayer : Server :=
  { s with player := Function.update s.player s.fresh (some ⟨none, none, []⟩), fresh := s.fresh + 1 }

/-- `PlayerFactory`, for an account with so many characters. -/
def playerFactory : Nat → Server
  | 0 => s.addPlayer
  | count + 1 => (playerFactory count).newCharacter s.fresh

/-- The callback of a login. -/
def loggedIn (c : ClientId) (client : EOClient) (count : Nat) : Server :=
  let p := s.fresh
  let s := s.playerFactory count
  if client.connected then
    (s.modifyPlayer p fun player => { player with client := some c }).setClient c
      { client with player := some p, state := .loggedIn }
  else s.setClient c { client with player := some p }

end Server

/-- How an operation ends. -/
inductive Outcome
  | success (count : Nat)
  | failure (closes : Bool)
  | thrown
  deriving Repr, DecidableEq

inductive Event
  | accept
  | close (c : ClientId) (clears : Bool)
  | bury (c : ClientId)
  | initInit (c : ClientId)
  | request (c : ClientId) (kind : Kind)
  | callback (op : Operation) (outcome : Outcome)
  | clear (op : Operation)
  | welcomeRequest (c : ClientId) (x : CharId)
  | welcomeMsg (c : ClientId)
  | characterCreate (c : ClientId)
  | characterRemove (c : ClientId) (x : CharId)
  | duty (c : ClientId) (swap : CharId)
  | trade (c : ClientId) (family : PacketFamily) (action : PacketAction) (x : CharId) (trading : Bool)
      (partner : Option CharId)
  deriving Repr, DecidableEq

/-- The packet that asks for an operation. -/
def Kind.packet : Kind → PacketFamily × PacketAction
  | .login => (.login, .request)
  | .createAccount => (.account, .create)
  | .changePassword => (.account, .agree)

namespace Server

variable (s : Server)

def markCalled (op : Operation) : Server :=
  { s with operations := s.operations.map fun other => if other = op then { op with called := true } else other }

/-- The callbacks of an operation that has a result. Those of an account change nothing here. -/
def callback (op : Operation) (client : EOClient) (outcome : Outcome) : Server :=
  let s := s.markCalled op
  match op.kind, outcome with
  | .login, .success count => s.loggedIn op.client client count
  | .login, .failure true => s.setClient op.client { client with connected := false }
  | _, _ => s

end Server

/-- The handlers that change who is there. Others leave all this as it is, apart from trades: a handler of a character
may begin or end one, and the partners are found among the characters in the game. -/
def step (s : Server) : Event → Option Server
  | .accept => some { s.setClient s.fresh .new with fresh := s.fresh + 1 }
  | .close c clears =>
      (s.client c).map fun client =>
        s.setClient c { client with connected := false, asyncOpPending := client.asyncOpPending && !clears }
  | .bury c =>
      match s.client c with
      | some client => if client.connected || client.asyncOpPending then none else some (s.bury c client)
      | none => none
  | .initInit c =>
      if s.called c .init .init = some .client then
        some (s.modifyClient c fun client => { client with state := .initialized })
      else none
  | .request c kind =>
      match s.called c kind.packet.1 kind.packet.2, s.client c with
      | some .client, some client | some (.player _), some client => some (s.execute c client kind)
      | _, _ => none
  | .callback op outcome =>
      match s.client op.client with
      | some client => if op ∈ s.operations ∧ op.called = false then some (s.callback op client outcome) else none
      | none => none
  | .clear op =>
      if op ∈ s.operations ∧ op.called = true then
        some { s.modifyClient op.client fun client => { client with asyncOpPending := false } with
          operations := s.operations.filter (· ≠ op) }
      else none
  | .welcomeRequest c x =>
      match s.called c .welcome .request with
      | some (.player p) =>
          (s.player p).bind fun player =>
            if player.character = none ∧ x ∈ player.characters then
              some (s.setPlayer p { player with character := some x })
            else none
      | _ => none
  | .welcomeMsg c =>
      match s.called c .welcome .msg with
      | some (.player p) =>
          (s.player p).bind fun player =>
            player.character.map fun x =>
              (s.login x).modifyClient c fun client => { client with state := .playing }
      | _ => none
  | .characterCreate c =>
      match s.called c .character .create with
      | some (.player p) => some (s.newCharacter p)
      | _ => none
  | .characterRemove c x =>
      match s.called c .character .remove with
      | some (.player p) =>
          some (s.modifyPlayer p fun player => { player with characters := player.characters.erase x })
      | _ => none
  | .duty c swap =>
      match s.called c .talk .report with
      | some (.character x) =>
          match s.character x with
          | some character =>
              (s.player character.player).bind fun player =>
                if swap ∈ player.characters then
                  some (((s.logout x).modifyPlayer character.player
                    fun player => { player with character := some swap }).login swap)
                else none
          | none => none
      | _ => none
  | .trade c family action x trading partner =>
      match s.called c family action with
      | some (.character _) =>
          if x ∈ s.characters ∧ ∀ y ∈ partner, y ∈ s.characters then
            some (s.modifyCharacter x fun character => { character with trading, tradePartner := partner })
          else none
      | _ => none

end Etheos.Dispatch
