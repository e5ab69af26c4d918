import Etheos.General.Run
import Etheos.Packet.Processor
import Mathlib.Logic.Function.Basic

/-! Logging in to an account. The credentials are checked on other threads, and
a flag for every username keeps two checks apart. Each callback of a check is
one step. -/
namespace Etheos.Login

abbrev ClientId := Nat

abbrev Username := Bytes

inductive ClientState where
  | uninitialized
  | initialized
  | loggedIn
  | playing
  deriving Repr, DecidableEq

/-- `player` is the username of the player that the client holds. -/
structure LoginClient where
  connected : Bool
  state : ClientState
  asyncOpPending : Bool
  player : Option Username
  loginAttempts : Nat
  deriving Repr, DecidableEq

/-- The hash is the identity unless `SeoseCompat` is set. -/
structure Config where
  accountMaxLength : Nat
  passwordMaxLength : Nat
  accountMinLength : Nat
  passwordMinLength : Nat
  seoseStrHash : Bytes → Bytes
  maxPlayers : Nat
  loginQueueSize : Nat
  maxLoginAttempts : Nat

/-- `checks` are the credential checks that are queued or running, each with the
client that asked for it. -/
structure Server where
  clients : List ClientId
  client : ClientId → LoginClient
  pendingLogins : Username → Bool
  processCount : Nat
  checks : List (ClientId × Username)

/-- The data of a request, with the result of the ban list and the number of
characters in the game. -/
structure LoginRequest where
  username : Bytes
  password : Bytes
  banned : Bool
  characters : Nat
  deriving Repr, DecidableEq

/-- `std::tolower` on every byte. -/
def lowercase (subject : Bytes) : Bytes :=
  subject.map fun c => if 65 ≤ c ∧ c ≤ 90 then c + 32 else c

def validName (username : Username) : Bool :=
  username.all fun c => (97 ≤ c && c ≤ 122) || c = 32 || (48 ≤ c && c ≤ 57)

/-- How a credential check ends. On success the player is loaded from the row
found for the username, and the row may be gone by then. -/
inductive Outcome where
  | success (row : Option Username)
  | failure
  | thrown
  deriving Repr, DecidableEq

namespace Server

def setClient (s : Server) (c : ClientId) (client : LoginClient) : Server :=
  { s with client := Function.update s.client c client }

def close (s : Server) (c : ClientId) : Server :=
  s.setClient c { s.client c with connected := false }

def asyncOpPending (s : Server) (c : ClientId) (pending : Bool) : Server :=
  s.setClient c { s.client c with asyncOpPending := pending }

def setPendingLogin (s : Server) (username : Username) (isPending : Bool) : Server :=
  { s with pendingLogins := Function.update s.pendingLogins username isPending }

def playerOnline (s : Server) (username : Username) : Bool :=
  if ¬validName username then false
  else if s.pendingLogins username then true
  else s.clients.any fun c => (s.client c).player = some username

def loginBusy (config : Config) (s : Server) : Bool := s.processCount ≥ config.loginQueueSize

/-- The callback of a failed check, and of a request for a player that is
online. -/
def failureCallback (config : Config) (s : Server) (c : ClientId) (username : Username) : Server :=
  let s := s.setPendingLogin username false
  if config.maxLoginAttempts ≠ 0 then
    let attempts := (s.client c).loginAttempts + 1
    let s := s.setClient c { s.client c with loginAttempts := attempts }
    if attempts ≥ config.maxLoginAttempts then s.close c else s
  else s

/-- The exception of `Execute` closes the client. -/
def executeThrows (s : Server) (c : ClientId) : Server := (s.asyncOpPending c false).close c

/-- `CheckCredential(client)->Execute(..)`. When too many checks are running the
answer is known at once. -/
def checkCredential (config : Config) (s : Server) (c : ClientId) (username : Username) :
    Server :=
  if s.loginBusy config then
    if (s.client c).asyncOpPending then s.executeThrows c
    else (failureCallback config (s.asyncOpPending c true) c username).asyncOpPending c false
  else
    let s := { s with processCount := s.processCount + 1 }
    if (s.client c).asyncOpPending then s.executeThrows c
    else
      let s := s.asyncOpPending c true
      { s with checks := s.checks ++ [(c, username)] }

def loginRequest (config : Config) (s : Server) (c : ClientId) (request : LoginRequest) : Server :=
  if request.username.length > config.accountMaxLength ∨
      request.password.length > config.passwordMaxLength then s
  else
    let username := lowercase request.username
    let password := config.seoseStrHash request.password
    if request.banned then s.close c
    else if username.length < config.accountMinLength then s
    else if password.length < config.passwordMinLength then s
    else if request.characters ≥ config.maxPlayers then s.close c
    else if s.playerOnline username then failureCallback config s c username
    else checkCredential config (s.setPendingLogin username true) c username

/-- A worker ends a check. `PlayerFactory` throws when there is no row. -/
def complete (config : Config) (s : Server) (c : ClientId) (username : Username)
    (outcome : Outcome) : Server :=
  let s := { s with checks := s.checks.erase (c, username) }
  let s := match outcome with
    | .success (some row) =>
        let s := s.setClient c { s.client c with player := some row }
        let s := s.setPendingLogin username false
        if (s.client c).connected then s.setClient c { s.client c with state := .loggedIn } else s
    | .failure => failureCallback config s c username
    | _ => s
  let s := s.asyncOpPending c false
  { s with processCount := s.processCount - 1 }

/-- A connection that has been accepted and initialized. -/
def connect (s : Server) (c : ClientId) : Server :=
  { s.setClient c ⟨true, .initialized, false, none, 0⟩ with clients := s.clients ++ [c] }

/-- A closed client is deleted with its player. -/
def bury (s : Server) (c : ClientId) : Server :=
  { s.setClient c ⟨false, .uninitialized, false, none, 0⟩ with clients := s.clients.erase c }

def start : Server :=
  ⟨[], fun _ => ⟨false, .uninitialized, false, none, 0⟩, fun _ => false, 0, []⟩

end Server

inductive Event where
  | connect (c : ClientId)
  | request (c : ClientId) (request : LoginRequest)
  | complete (c : ClientId) (username : Username) (outcome : Outcome)
  | close (c : ClientId)
  | bury (c : ClientId)
  deriving Repr, DecidableEq

/-- Requests are handled for connected clients in the menu. A client is not
deleted while a check of it is running. -/
def step (config : Config) (s : Server) : Event → Option Server
  | .connect c => if c ∈ s.clients then none else some (s.connect c)
  | .request c request =>
      if c ∈ s.clients ∧ (s.client c).connected ∧ (s.client c).state = .initialized then
        some (s.loginRequest config c request)
      else none
  | .complete c username outcome =>
      if (c, username) ∈ s.checks then some (s.complete config c username outcome) else none
  | .close c => if c ∈ s.clients then some (s.close c) else none
  | .bury c =>
      if c ∈ s.clients ∧ ¬(s.client c).connected ∧ ¬(s.client c).asyncOpPending ∧
          ∀ check ∈ s.checks, check.1 ≠ c then some (s.bury c)
      else none

end Etheos.Login
