import Etheos.EOClient.Upload

/-! Both sides of a connection as bounded queues. No file is uploaded here. -/
namespace Etheos

open PacketProcessor General

/-- The loop of `assert_power_of_two`, which does not end for zero. -/
def oddPart (size : Nat) : Nat :=
  if 0 < size ∧ size &&& 1 = 0 then oddPart (size >>> 1) else size
termination_by size
decreasing_by
  rw [Nat.shiftRight_eq_div_pow]
  omega

/-- Any other size throws. -/
def assertPowerOfTwo (size : Nat) : Bool := oddPart size ≤ 1

/-- `accepted` and `received` are the bytes that have gone into the two buffers, and
`returned` those that `Recv` has returned. The program keeps none of them. -/
structure Connection where
  client : Client
  sender : Sender
  accepted : Bytes
  received : Bytes
  returned : Bytes
  deriving DecidableEq

/-- A run ends where the socket reports an error, which closes the connection. -/
inductive ConnectionEvent
  | send (data : Bytes)
  | doSend (written : Nat)
  | doRecv (buf : Bytes)
  | recv (length : Nat)
  deriving DecidableEq

namespace Connection

/-- The two buffers get their sizes when the connection is accepted. -/
def new (processor : PacketProcessor) (recvSize sendSize : Nat) : Connection where
  client := Client.setRecvBuffer recvSize
  sender := Sender.new processor sendSize
  accepted := []
  received := []
  returned := []

def send (c : Connection) (data : Bytes) : Connection :=
  { c with
    sender := c.sender.sendRaw data
    accepted := if c.sender.sendBuffer.free < data.length then c.accepted else c.accepted ++ data }

def recv (c : Connection) (length : Nat) : Connection :=
  let (ret, client) := c.client.recv length
  { c with client := client, returned := c.returned ++ ret }

/-- Where the socket has nothing, `DoRecv` returns false and keeps the buffer. -/
def doRecv (c : Connection) (buf : Bytes) : Option Connection :=
  if buf = [] then some c
  else (c.client.doRecv buf).map fun client =>
    { c with client := client, received := c.received ++ buf }

def step (c : Connection) : ConnectionEvent → Option Connection
  | .send data => some (c.send data)
  | .doSend written => (c.sender.doSend written).map fun sender => { c with sender := sender }
  | .doRecv buf => c.doRecv buf
  | .recv length => some (c.recv length)

/-- Both buffers are queues that hold at most as many bytes as they have cells. Data
that does not fit is turned away, and the connection is closed. -/
structure Bounded (recvSize sendSize : Nat) (c : Connection) : Prop where
  written : c.sender.written <+: c.accepted
  returned : c.returned <+: c.received
  sendQueue : c.sender.sendBuffer.contents = c.accepted.drop c.sender.written.length
  recvQueue : c.client.recvBuffer.contents = c.received.drop c.returned.length
  sendUsed : c.sender.sendBuffer.used = c.accepted.length - c.sender.written.length ∧
    c.sender.sendBuffer.used ≤ sendSize
  recvUsed : c.client.recvBuffer.used = c.received.length - c.returned.length ∧
    c.client.recvBuffer.used ≤ recvSize
  fits : ∀ data, c.sender.sendBuffer.used + data.length ≤ sendSize →
    (c.send data).accepted = c.accepted ++ data ∧ (c.send data).sender.closed = c.sender.closed
  overflows : ∀ data, sendSize < c.sender.sendBuffer.used + data.length →
    c.send data = { c with sender := { c.sender with closed := true } }

/-- The invariant that `Bounded` follows from. -/
structure Queues (recvSize sendSize : Nat) (c : Connection) : Prop where
  outgoing : c.sender.sendBuffer.Follows c.accepted c.sender.written
  incoming : c.client.recvBuffer.Follows c.received c.returned
  sendSize : c.sender.sendBuffer.size = sendSize
  recvSize : c.client.recvBuffer.size = recvSize

section Sizes

theorem oddPart_even {size : Nat} (h : 0 < size) : oddPart (2 * size) = oddPart size := by
  have hEven : 2 * size &&& 1 = 0 := by
    rw [Nat.and_one_is_mod]
    omega
  have hHalf : (2 * size) >>> 1 = size := by
    rw [Nat.shiftRight_eq_div_pow]
    omega
  rw [oddPart, if_pos ⟨by omega, hEven⟩, hHalf]

theorem oddPart_odd {size : Nat} (h : size % 2 = 1) : oddPart size = size := by
  have hOdd : ¬(0 < size ∧ size &&& 1 = 0) := by
    rw [Nat.and_one_is_mod]
    omega
  rw [oddPart, if_neg hOdd]

theorem oddPart_le_one_iff {size : Nat} (h : 0 < size) : oddPart size ≤ 1 ↔ ∃ k, size = 2 ^ k := by
  induction size using Nat.strong_induction_on with
  | _ size ih =>
      rcases Nat.mod_two_eq_zero_or_one size with hEven | hOne
      · obtain ⟨half, rfl⟩ : ∃ half, size = 2 * half := ⟨size / 2, by omega⟩
        have hHalf : 0 < half := by omega
        rw [oddPart_even hHalf, ih half (by omega) hHalf]
        constructor
        · rintro ⟨k, rfl⟩
          exact ⟨k + 1, by rw [Nat.pow_succ, Nat.mul_comm]⟩
        · rintro ⟨k, hPower⟩
          cases k with
          | zero => omega
          | succ k =>
              rw [Nat.pow_succ] at hPower
              exact ⟨k, by omega⟩
      · rw [oddPart_odd hOne]
        constructor
        · intro hSmall
          exact ⟨0, by omega⟩
        · rintro ⟨k, hPower⟩
          cases k with
          | zero => omega
          | succ k =>
              rw [Nat.pow_succ] at hPower
              omega

/-- The sizes that a buffer can be given. -/
theorem assertPowerOfTwo_iff {size : Nat} (h : 0 < size) :
    assertPowerOfTwo size = true ↔ ∃ k, size = 2 ^ k :=
  decide_eq_true_iff.trans (oddPart_le_one_iff h)

end Sizes

section Steps

variable {recvSize sendSize : Nat} {c next : Connection}

theorem send_fits {data : Bytes} (hFits : data.length ≤ c.sender.sendBuffer.free) :
    c.send data = { c with
      sender := { c.sender with sendBuffer := c.sender.sendBuffer.put data }
      accepted := c.accepted ++ data } := by
  have hRoom := Nat.not_lt.mpr hFits
  rw [send, Sender.sendRaw, if_neg hRoom, if_neg hRoom]

theorem send_overflows {data : Bytes} (hFull : c.sender.sendBuffer.free < data.length) :
    c.send data = { c with sender := { c.sender with closed := true } } := by
  rw [send, Sender.sendRaw, if_pos hFull, if_pos hFull]

/-- The counter alone tells how much room there is. -/
theorem Queues.free_eq (h : c.Queues recvSize sendSize) :
    c.sender.sendBuffer.free = sendSize - c.sender.sendBuffer.used := by
  rw [RingBuffer.free, h.sendSize]

theorem Queues.bounded (h : c.Queues recvSize sendSize) : c.Bounded recvSize sendSize := by
  have hFree := h.free_eq
  have hUsed := h.outgoing.wf.used_le
  rw [h.sendSize] at hUsed
  constructor
  case written => exact h.outgoing.isPrefix
  case returned => exact h.incoming.isPrefix
  case sendQueue => exact h.outgoing.contents_eq
  case recvQueue => exact h.incoming.contents_eq
  case sendUsed => exact ⟨h.outgoing.used_eq, hUsed⟩
  case recvUsed => exact ⟨h.incoming.used_eq, h.recvSize ▸ h.incoming.wf.used_le⟩
  case fits =>
    intro data hFits
    rw [send_fits (by omega)]
    exact ⟨rfl, rfl⟩
  case overflows =>
    intro data hFull
    exact send_overflows (by omega)

theorem send_queues (h : c.Queues recvSize sendSize) (data : Bytes) :
    (c.send data).Queues recvSize sendSize := by
  by_cases hFits : data.length ≤ c.sender.sendBuffer.free
  · rw [send_fits hFits]
    have hSize := (h.outgoing.wf.put hFits).2.1
    exact ⟨h.outgoing.put hFits, h.incoming, hSize.trans h.sendSize, h.recvSize⟩
  · rw [send_overflows (Nat.not_le.mp hFits)]
    exact ⟨h.outgoing, h.incoming, h.sendSize, h.recvSize⟩

/-- The read position goes on by what has been written only. -/
theorem doSend_queues (h : c.Queues recvSize sendSize) {written : Nat} {sender : Sender}
    (hStep : c.sender.doSend written = some sender) :
    ({ c with sender := sender } : Connection).Queues recvSize sendSize := by
  obtain ⟨-, rfl⟩ := Sender.doSend_take h.outgoing.wf hStep
  have hSize := (h.outgoing.wf.take written).2.2.1
  exact ⟨h.outgoing.take written, h.incoming, hSize.trans h.sendSize, h.recvSize⟩

theorem doRecv_queues (h : c.Queues recvSize sendSize) {buf : Bytes}
    (hStep : c.doRecv buf = some next) : next.Queues recvSize sendSize := by
  unfold doRecv Client.doRecv at hStep
  split at hStep
  case isTrue => exact Option.some.inj hStep ▸ h
  case isFalse =>
    split at hStep
    case isFalse => cases hStep
    case isTrue hBuf =>
      cases hStep
      have hFits : buf.length ≤ c.client.recvBuffer.free := Nat.le_trans hBuf.2 (Nat.min_le_left _ _)
      have hSize := (h.incoming.wf.put hFits).2.1
      exact ⟨h.outgoing, h.incoming.put hFits, h.sendSize, hSize.trans h.recvSize⟩

theorem recv_queues (h : c.Queues recvSize sendSize) (length : Nat) :
    (c.recv length).Queues recvSize sendSize := by
  have hSize := (h.incoming.wf.take length).2.2.1
  exact ⟨h.outgoing, h.incoming.take length, h.sendSize, hSize.trans h.recvSize⟩

theorem step_queues (c : Connection) (event : ConnectionEvent) (next : Connection)
    (h : c.Queues recvSize sendSize) (hStep : c.step event = some next) :
    next.Queues recvSize sendSize := by
  cases event with
  | send data => exact Option.some.inj hStep ▸ send_queues h data
  | doSend written =>
      obtain ⟨sender, hSend, rfl⟩ := Option.map_eq_some_iff.mp hStep
      exact doSend_queues h hSend
  | doRecv buf => exact doRecv_queues h hStep
  | recv length => exact Option.some.inj hStep ▸ recv_queues h length

end Steps

theorem new_queues (processor : PacketProcessor) (j k : Nat) :
    (new processor (2 ^ j) (2 ^ k)).Queues (2 ^ j) (2 ^ k) where
  outgoing := RingBuffer.empty_follows k
  incoming := RingBuffer.empty_follows j
  sendSize := List.length_replicate
  recvSize := List.length_replicate

/-- Whatever the socket takes and returns, nothing is lost, doubled or reordered. -/
theorem buffers_bounded (processor : PacketProcessor) (j k : Nat) (events : List ConnectionEvent) :
    Always step (Bounded (2 ^ j) (2 ^ k)) (new processor (2 ^ j) (2 ^ k)) events :=
  (always_of_invariant step_queues (new_queues processor j k) events).mono fun _ => Queues.bounded

/-- The positions go round twice in buffers of four bytes. -/
example : (run step (new ⟨0, 0⟩ 4 4) [.send [1, 2, 3], .doSend 2, .send [4, 5, 6], .doSend 3,
    .doRecv [7, 8, 9], .recv 2, .doRecv [10, 11, 12], .recv 9, .send [13, 14, 15, 16]]).map
      (fun c => (c.sender.written, c.returned, c.sender.closed)) =
    some ([1, 2, 3, 4, 5], [7, 8, 9, 10, 11, 12], true) := by decide

end Connection

end Etheos
