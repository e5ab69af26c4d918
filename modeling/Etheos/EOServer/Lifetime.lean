import Etheos.General.Run
import Mathlib.Logic.Function.Basic

/-! Clients and the operations that worker threads run for them. The main loop deletes
closed clients, and only a flag keeps it from those with an operation. -/
namespace Etheos.EOServer

abbrev ClientId := Nat

structure Client where
  connected : Bool
  asyncOpPending : Bool
  needpong : Bool
  closedTime : Nat
  sendBufferLength : Nat
  recvBufferLength : Nat
  deriving Repr, DecidableEq

inductive Kind where
  | login
  | createAccount
  | changePassword
  deriving Repr, DecidableEq

/-- Only `CheckLoginAsync` adds a complete callback. -/
def Kind.completeCallbacks : Kind → Nat
  | .login => 1
  | .createAccount => 0
  | .changePassword => 0

/-- An operation is queued, or runs itself or its success or failure callbacks. Then it
clears the flag, and some complete callbacks are left. -/
inductive Phase where
  | working
  | completing (left : Nat)
  deriving Repr, DecidableEq

structure Operation where
  client : ClientId
  kind : Kind
  phase : Phase
  deriving Repr, DecidableEq

/-- `operations` are those that have not finished, and `pass` is what `BuryTheDead` still
has to look at. -/
structure Server where
  clients : List ClientId
  client : ClientId → Client
  operations : List Operation
  pass : Option (List ClientId)

/-- What becomes of the first action in the queue of a client. -/
inductive Action where
  | overflow
  | request (kind : Kind)
  | throws
  | closes
  | pong
  deriving Repr, DecidableEq

inductive Event where
  | accept (c : ClientId) (sendBufferLength recvBufferLength : Nat)
  | ping (c : ClientId) (now : Nat)
  | pump (c : ClientId) (now : Nat) (action : Action)
  | receiveInvalid (c : ClientId) (now : Nat)
  | disconnect (c : ClientId) (now : Nat)
  | shutdown (c : ClientId) (now : Nat)
  | buryTheDead
  | examine (now : Nat)
  | callbackCloses (op : Operation) (now : Nat)
  | clear (op : Operation)
  | completeCallback (op : Operation)
  deriving Repr, DecidableEq

namespace Server

def setClient (s : Server) (c : ClientId) (client : Client) : Server :=
  { s with client := Function.update s.client c client }

def asyncOpPending (s : Server) (c : ClientId) (pending : Bool) : Server :=
  s.setClient c { s.client c with asyncOpPending := pending }

def close (s : Server) (c : ClientId) (force : Bool) (now : Nat) : Server :=
  if (s.client c).connected then
    s.setClient c { s.client c with connected := false, closedTime := if force then 0 else now }
  else s

/-- What the main loop does about a client that it gives up. -/
def drop (s : Server) (c : ClientId) (now : Nat) : Server := (s.asyncOpPending c false).close c false now

/-- The exception of `Execute` is caught by `server_pump_queue`. -/
def execute (s : Server) (c : ClientId) (kind : Kind) (now : Nat) : Server :=
  if (s.client c).asyncOpPending then s.drop c now
  else
    let s := s.asyncOpPending c true
    { s with operations := s.operations ++ [⟨c, kind, .working⟩] }

/-- `server_ping_all` at one client. -/
def ping (s : Server) (c : ClientId) (now : Nat) : Server :=
  if (s.client c).needpong then s.drop c now
  else s.setClient c { s.client c with needpong := true }

/-- `server_pump_queue` at one connected client. -/
def pump (s : Server) (c : ClientId) (now : Nat) : Action → Server
  | .overflow => s.drop c now
  | .request kind => s.execute c kind now
  | .throws => s.drop c now
  | .closes => s.close c false now
  | .pong => s.setClient c { s.client c with needpong := false }

end Server

def Client.dead (client : Client) (now : Nat) : Bool :=
  !client.connected && !client.asyncOpPending &&
    ((client.sendBufferLength = 0 && client.recvBufferLength = 0) || client.closedTime + 2 < now)

namespace Server

/-- `BuryTheDead` at one client. The client behind a deleted one is passed over. -/
def examine (s : Server) (now : Nat) : Option Server :=
  match s.pass with
  | none => none
  | some [] => some { s with pass := none }
  | some (c :: rest) =>
      if (s.client c).dead now then some { s with clients := s.clients.erase c, pass := some (rest.drop 1) }
      else some { s with pass := some rest }

/-- What is left of an operation that has run all but some complete callbacks. -/
def remaining (op : Operation) : Nat → List Operation
  | 0 => []
  | left + 1 => [{ op with phase := .completing (left + 1) }]

/-- The worker is done with the client. -/
def clear (s : Server) (op : Operation) : Server :=
  { s.asyncOpPending op.client false with
    operations := s.operations.erase op ++ remaining op op.kind.completeCallbacks }

def completeCallback (s : Server) (op : Operation) (left : Nat) : Server :=
  { s with operations := s.operations.erase op ++ remaining op left }

def start : Server := ⟨[], fun _ => ⟨false, false, false, 0, 0, 0⟩, [], none⟩

end Server

/-- The main loop does one thing at a time, and the workers may come between any two of
its steps. -/
def step (s : Server) : Event → Option Server
  | .accept c sendBufferLength recvBufferLength =>
      if s.pass = none ∧ c ∉ s.clients then
        some { s.setClient c ⟨true, false, false, 0, sendBufferLength, recvBufferLength⟩ with
          clients := s.clients ++ [c] }
      else none
  | .ping c now => if s.pass = none ∧ c ∈ s.clients then some (s.ping c now) else none
  | .pump c now action =>
      if s.pass = none ∧ c ∈ s.clients ∧ (s.client c).connected then some (s.pump c now action)
      else none
  | .receiveInvalid c now =>
      if s.pass = none ∧ c ∈ s.clients ∧ (s.client c).connected then some (s.drop c now) else none
  | .disconnect c now =>
      if s.pass = none ∧ c ∈ s.clients then some (s.close c true now) else none
  | .shutdown c now => if s.pass = none ∧ c ∈ s.clients then some (s.drop c now) else none
  | .buryTheDead => if s.pass = none then some { s with pass := some s.clients } else none
  | .examine now => s.examine now
  | .callbackCloses op now =>
      if op ∈ s.operations ∧ op.phase = .working then some (s.close op.client false now) else none
  | .clear op =>
      if op ∈ s.operations ∧ op.phase = .working then some (s.clear op) else none
  | .completeCallback op =>
      match op.phase with
      | .completing (left + 1) => if op ∈ s.operations then some (s.completeCallback op left) else none
      | _ => none

/-- A client is not deleted before its operations have finished. -/
def Outlives (s : Server) : Prop := ∀ op ∈ s.operations, op.client ∈ s.clients

/-- The client whose flag the main loop clears. -/
def clears (s : Server) : Event → Option ClientId
  | .ping c _ => if (s.client c).needpong then some c else none
  | .pump c _ .overflow => some c
  | .pump c _ (.request _) => if (s.client c).asyncOpPending then some c else none
  | .pump c _ .throws => some c
  | .receiveInvalid c _ => some c
  | .shutdown c _ => some c
  | _ => none

/-- The client that `BuryTheDead` comes to and takes for dead. -/
def finds (s : Server) : Event → Option ClientId
  | .examine now =>
      match s.pass with
      | some (c :: _) => if (s.client c).dead now then some c else none
      | _ => none
  | _ => none

/-- The main loop clears the flag of a client while a worker still needs it. Or a worker
has cleared the flag of a closed client, and `BuryTheDead` comes before the complete
callbacks. -/
def Endangers (s : Server) (event : Event) : Prop :=
  (∃ c ∈ clears s event, ∃ op ∈ s.operations, op.client = c ∧ op.phase = .working) ∨
    ∃ c ∈ finds s event, ∃ op ∈ s.operations, op.client = c ∧ op.phase ≠ .working

instance (s : Server) (event : Event) : Decidable (Endangers s event) :=
  inferInstanceAs (Decidable (_ ∨ _))

/-- Not both of the operations need the flag of one client. -/
def Operation.Apart (a b : Operation) : Prop := a.phase = .working → b.phase = .working → a.client ≠ b.client

theorem Operation.Apart.symm {a b : Operation} (h : a.Apart b) : b.Apart a :=
  fun hb ha hSame => h ha hb hSame.symm

/-- Every operation has its client, and its flag while it needs it. No client has two
operations that need it. -/
structure Guarded (s : Server) : Prop where
  outlives : Outlives s
  flagged : ∀ op ∈ s.operations, op.phase = .working → (s.client op.client).asyncOpPending = true
  single : s.operations.Pairwise Operation.Apart

section Flags

variable (s : Server) (c d : ClientId)

@[simp] theorem setClient_same (client : Client) : (s.setClient c client).client c = client :=
  Function.update_self ..

variable {c d} in
theorem setClient_other (h : d ≠ c) (client : Client) :
    (s.setClient c client).client d = s.client d := Function.update_of_ne h ..

theorem setClient_flag {client : Client} (h : client.asyncOpPending = (s.client c).asyncOpPending) :
    ((s.setClient c client).client d).asyncOpPending = (s.client d).asyncOpPending := by
  by_cases hSame : d = c
  · subst hSame
    rw [setClient_same, h]
  · rw [setClient_other s hSame]

theorem close_flag (force : Bool) (now : Nat) :
    ((s.close c force now).client d).asyncOpPending = (s.client d).asyncOpPending := by
  unfold Server.close
  split
  · exact setClient_flag s c d rfl
  · rfl

theorem close_operations (force : Bool) (now : Nat) :
    (s.close c force now).operations = s.operations ∧ (s.close c force now).clients = s.clients := by
  unfold Server.close
  split <;> exact ⟨rfl, rfl⟩

variable {c d} in
theorem asyncOpPending_flag (h : d ≠ c) (pending : Bool) :
    ((s.asyncOpPending c pending).client d).asyncOpPending = (s.client d).asyncOpPending := by
  rw [Server.asyncOpPending, setClient_other s h]

variable {c d} in
theorem drop_flag (h : d ≠ c) (now : Nat) :
    ((s.drop c now).client d).asyncOpPending = (s.client d).asyncOpPending := by
  rw [Server.drop, close_flag, asyncOpPending_flag s h]

end Flags

section Guarded

variable {s : Server}

/-- Nothing happens to the operations and the flags that they need. -/
theorem Guarded.frame (h : Guarded s) {s' : Server} (hOperations : s'.operations = s.operations)
    (hClients : ∀ c ∈ s.clients, c ∈ s'.clients)
    (hFlags : ∀ op ∈ s.operations, op.phase = .working →
      (s'.client op.client).asyncOpPending = (s.client op.client).asyncOpPending) : Guarded s' where
  outlives := by
    intro op hOp
    rw [hOperations] at hOp
    exact hClients _ (h.outlives op hOp)
  flagged := by
    intro op hOp hWorking
    rw [hOperations] at hOp
    exact (hFlags op hOp hWorking).trans (h.flagged op hOp hWorking)
  single := hOperations ▸ h.single

theorem Guarded.close (h : Guarded s) (c : ClientId) (force : Bool) (now : Nat) :
    Guarded (s.close c force now) := by
  obtain ⟨hOperations, hClients⟩ := close_operations s c force now
  exact h.frame hOperations (fun _ hc => hClients.symm ▸ hc) fun op _ _ => close_flag s c _ force now

theorem Guarded.set (h : Guarded s) {c : ClientId} {client : Client}
    (hFlag : client.asyncOpPending = (s.client c).asyncOpPending) : Guarded (s.setClient c client) :=
  h.frame rfl (fun _ hc => hc) fun op _ _ => setClient_flag s c op.client hFlag

/-- The main loop may give a client up while no worker needs it. -/
theorem Guarded.drop (h : Guarded s) {c : ClientId}
    (hIdle : ∀ op ∈ s.operations, op.client = c → op.phase ≠ .working) (now : Nat) :
    Guarded (s.drop c now) := by
  obtain ⟨hOperations, hClients⟩ := close_operations (s.asyncOpPending c false) c false now
  refine h.frame hOperations (fun _ hc => hClients.symm ▸ hc) fun op hOp hWorking => ?_
  exact drop_flag s (fun hSame => hIdle op hOp hSame hWorking) now

theorem Guarded.execute (h : Guarded s) {c : ClientId} (hListed : c ∈ s.clients)
    (hIdle : (s.client c).asyncOpPending = true →
      ∀ op ∈ s.operations, op.client = c → op.phase ≠ .working) (kind : Kind) (now : Nat) :
    Guarded (s.execute c kind now) := by
  unfold Server.execute
  split
  case isTrue hPending => exact h.drop (hIdle hPending) now
  case isFalse hFree =>
    -- The flag is not set, so no worker needs the client yet.
    have hOther (op : Operation) (hOp : op ∈ s.operations) (hWorking : op.phase = .working) :
        op.client ≠ c := by
      intro hSame
      have hFlag := h.flagged op hOp hWorking
      rw [hSame] at hFlag
      exact hFree hFlag
    constructor
    case outlives =>
      intro op hOp
      rcases List.mem_append.mp hOp with hOld | hNew
      · exact h.outlives op hOld
      · obtain rfl := List.mem_singleton.mp hNew
        exact hListed
    case flagged =>
      intro op hOp hWorking
      rcases List.mem_append.mp hOp with hOld | hNew
      · exact (asyncOpPending_flag s (hOther op hOld hWorking) true).trans (h.flagged op hOld hWorking)
      · obtain rfl := List.mem_singleton.mp hNew
        simp [Server.asyncOpPending]
    case single =>
      refine List.pairwise_append.mpr ⟨h.single, List.pairwise_singleton _ _, ?_⟩
      intro a hOld b hNew hWorking _
      obtain rfl := List.mem_singleton.mp hNew
      exact hOther a hOld hWorking

theorem mem_remaining {op other : Operation} {left : Nat} (h : other ∈ Server.remaining op left) :
    other.client = op.client ∧ other.phase ≠ .working := by
  cases left with
  | zero => cases h
  | succ left =>
      obtain rfl := List.mem_singleton.mp h
      exact ⟨rfl, by simp⟩

/-- What becomes of an operation that goes on to its complete callbacks or ends. -/
theorem Guarded.advance (h : Guarded s) {op : Operation} (hOp : op ∈ s.operations) (left : Nat)
    {client : ClientId → Client}
    (hFlags : ∀ other ∈ s.operations.erase op, other.phase = .working →
      (client other.client).asyncOpPending = (s.client other.client).asyncOpPending) :
    Guarded { s with
      client := client
      operations := s.operations.erase op ++ Server.remaining op left } where
  outlives := by
    intro other hOther
    rcases List.mem_append.mp hOther with hOld | hNew
    · exact h.outlives other (List.mem_of_mem_erase hOld)
    · exact (mem_remaining hNew).1 ▸ h.outlives op hOp
  flagged := by
    intro other hOther hWorking
    rcases List.mem_append.mp hOther with hOld | hNew
    · exact (hFlags other hOld hWorking).trans (h.flagged other (List.mem_of_mem_erase hOld) hWorking)
    · exact absurd hWorking (mem_remaining hNew).2
  single := by
    refine List.pairwise_append.mpr ⟨h.single.sublist (List.erase_sublist ..), ?_, ?_⟩
    · cases left with
      | zero => exact List.Pairwise.nil
      | succ left => exact List.pairwise_singleton _ _
    · intro a _ b hNew _ hWorking
      exact absurd hWorking (mem_remaining hNew).2

/-- The flag that a worker clears is not needed by another one. -/
theorem Guarded.clear (h : Guarded s) {op : Operation} (hOp : op ∈ s.operations)
    (hWorking : op.phase = .working) : Guarded (s.clear op) := by
  refine h.advance hOp _ fun other hOther hOtherWorking => ?_
  have hPairs : (op :: s.operations.erase op).Pairwise Operation.Apart :=
    ((List.perm_cons_erase hOp).pairwise_iff fun h => h.symm).mp h.single
  have hFirst := (List.pairwise_cons.mp hPairs).1 other hOther hWorking hOtherWorking
  exact asyncOpPending_flag s (Ne.symm hFirst) false

theorem Guarded.examine (h : Guarded s) {now : Nat} {next : Server} (hStep : s.examine now = some next)
    (hGood : ¬Endangers s (.examine now)) : Guarded next := by
  unfold Server.examine at hStep
  split at hStep
  case h_1 => cases hStep
  case h_2 =>
    cases hStep
    exact h.frame rfl (fun _ hc => hc) fun _ _ _ => rfl
  case h_3 c rest hPass =>
    split at hStep
    case isFalse =>
      cases hStep
      exact h.frame rfl (fun _ hc => hc) fun _ _ _ => rfl
    case isTrue hDead =>
      cases hStep
      -- No operation of the deleted client is left, in either phase.
      have hNone (op : Operation) (hOp : op ∈ s.operations) : op.client ≠ c := by
        intro hSame
        by_cases hWorking : op.phase = .working
        · have hFlag := h.flagged op hOp hWorking
          rw [hSame] at hFlag
          simp [Client.dead, hFlag] at hDead
        · refine hGood (.inr ⟨c, ?_, op, hOp, hSame, hWorking⟩)
          simp [finds, hPass, hDead]
      refine ⟨fun op hOp => ?_, h.flagged, h.single⟩
      exact (List.mem_erase_of_ne (hNone op hOp)).mpr (h.outlives op hOp)

end Guarded

/-- A flag that the main loop clears in a step that is not a dangerous one is not needed. -/
theorem not_working {s : Server} {event : Event} (hGood : ¬Endangers s event) {c : ClientId}
    (hClears : clears s event = some c) (op : Operation) (hOp : op ∈ s.operations) (hClient : op.client = c) :
    op.phase ≠ .working :=
  fun hWorking => hGood (.inl ⟨c, hClears, op, hOp, hClient, hWorking⟩)

theorem pump_guarded {s : Server} (h : Guarded s) {c : ClientId} (hListed : c ∈ s.clients) {now : Nat}
    {action : Action} (hGood : ¬Endangers s (.pump c now action)) : Guarded (s.pump c now action) := by
  have hIdle := not_working (c := c) hGood
  cases action with
  | overflow => exact h.drop (hIdle rfl) now
  | request kind => exact h.execute hListed (fun hPending => hIdle (if_pos hPending)) kind now
  | throws => exact h.drop (hIdle rfl) now
  | closes => exact h.close c false now
  | pong => exact h.set rfl

theorem step_guarded (s : Server) (event : Event) (next : Server) (h : Guarded s)
    (hGood : ¬Endangers s event) (hStep : step s event = some next) : Guarded next := by
  cases event with
  | accept c sendBufferLength recvBufferLength =>
      obtain ⟨⟨-, hFresh⟩, hNext⟩ := Option.ite_none_right_eq_some.mp hStep
      obtain rfl := Option.some.inj hNext
      refine h.frame rfl (fun _ hc => List.mem_append_left _ hc) fun op hOp _ => ?_
      have hOther : op.client ≠ c := fun hSame => hFresh (hSame ▸ h.outlives op hOp)
      exact congrArg Client.asyncOpPending (setClient_other s hOther _)
  | ping c now =>
      obtain ⟨-, hNext⟩ := Option.ite_none_right_eq_some.mp hStep
      obtain rfl := Option.some.inj hNext
      unfold Server.ping
      split
      · next hPong => exact h.drop (not_working hGood (if_pos hPong)) now
      · exact h.set rfl
  | pump c now action =>
      obtain ⟨⟨-, hListed, -⟩, hNext⟩ := Option.ite_none_right_eq_some.mp hStep
      exact Option.some.inj hNext ▸ pump_guarded h hListed hGood
  | receiveInvalid c now =>
      obtain ⟨-, hNext⟩ := Option.ite_none_right_eq_some.mp hStep
      exact Option.some.inj hNext ▸ h.drop (not_working hGood rfl) now
  | disconnect c now =>
      obtain ⟨-, hNext⟩ := Option.ite_none_right_eq_some.mp hStep
      exact Option.some.inj hNext ▸ h.close c true now
  | shutdown c now =>
      obtain ⟨-, hNext⟩ := Option.ite_none_right_eq_some.mp hStep
      exact Option.some.inj hNext ▸ h.drop (not_working hGood rfl) now
  | buryTheDead =>
      obtain ⟨-, hNext⟩ := Option.ite_none_right_eq_some.mp hStep
      obtain rfl := Option.some.inj hNext
      exact h.frame rfl (fun _ hc => hc) fun _ _ _ => rfl
  | examine now => exact h.examine hStep hGood
  | callbackCloses op now =>
      obtain ⟨-, hNext⟩ := Option.ite_none_right_eq_some.mp hStep
      exact Option.some.inj hNext ▸ h.close op.client false now
  | clear op =>
      obtain ⟨⟨hOp, hWorking⟩, hNext⟩ := Option.ite_none_right_eq_some.mp hStep
      exact Option.some.inj hNext ▸ h.clear hOp hWorking
  | completeCallback op =>
      unfold step at hStep
      dsimp only at hStep
      split at hStep
      · obtain ⟨hOp, hNext⟩ := Option.ite_none_right_eq_some.mp hStep
        exact Option.some.inj hNext ▸ h.advance hOp _ fun _ _ _ => rfl
      · cases hStep

theorem start_guarded : Guarded .start where
  outlives := by
    intro op hOp
    cases hOp
  flagged := by
    intro op hOp
    cases hOp
  single := List.Pairwise.nil

/-- Without the dangerous steps, no client is deleted before its operations have finished. -/
theorem outlives_of_avoids {events : List Event} (h : General.Avoids step Endangers .start events) :
    General.Always step Outlives .start events :=
  (General.always_of_avoids step_guarded start_guarded h).mono fun _ => Guarded.outlives

/-- A client is disconnected while its credentials are checked, and deleted afterwards. -/
def patient : List Event :=
  [.accept 1 8 8, .pump 1 0 (.request .login), .disconnect 1 5, .buryTheDead, .examine 9,
    .clear ⟨1, .login, .working⟩, .completeCallback ⟨1, .login, .completing 1⟩, .examine 9, .buryTheDead,
    .examine 9]

theorem outlives_of_avoids_patient : General.Always step Outlives .start patient :=
  outlives_of_avoids (by decide)

/-- A second request of the client makes `Execute` throw, and the main loop clears the
flag of the first operation. -/
def twoRequests : List Event :=
  [.accept 1 8 8, .pump 1 0 (.request .login), .pump 1 1 (.request .login), .buryTheDead, .examine 4]

/-- The client is deleted while the worker holds it. The same happens where the complete
callback comes too late. -/
theorem not_outlives_twoRequests :
    ¬General.Always step Outlives .start twoRequests ∧
    ¬General.Always step Outlives .start [.accept 1 8 8, .pump 1 0 (.request .login), .disconnect 1 0,
      .clear ⟨1, .login, .working⟩, .buryTheDead, .examine 4] := by
  constructor
  · intro h
    have hEnd := h _ _ (List.prefix_refl _) rfl
    have hClient : 1 ∈ ([] : List ClientId) := hEnd ⟨1, .login, .working⟩ (List.mem_singleton.mpr rfl)
    cases hClient
  · intro h
    have hEnd := h _ _ (List.prefix_refl _) rfl
    have hClient : 1 ∈ ([] : List ClientId) := hEnd ⟨1, .login, .completing 1⟩ (List.mem_singleton.mpr rfl)
    cases hClient

end Etheos.EOServer
