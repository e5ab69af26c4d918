import Etheos.Socket.Client

/-! The resumable parser that cuts the received stream into packets. -/
namespace Etheos

open PacketProcessor

inductive PacketState where
  | readLen1
  | readLen2
  | readData
  deriving Repr, DecidableEq

/-- `executed` collects the strings that have been passed to `Execute`. -/
structure EOClient where
  client : Client
  packetState : PacketState
  rawLength1 : UInt8
  rawLength2 : UInt8
  length : Nat
  data : Bytes
  executed : List Bytes
  deriving Repr, DecidableEq

namespace EOClient

/-- A connection that has just been accepted. -/
def new (client : Client) : EOClient := ⟨client, .readLen1, 0, 0, 0, [], []⟩

def execute (c : EOClient) (data : Bytes) : EOClient := { c with executed := c.executed ++ [data] }

/-- The case `ReadData` of the loop. It returns the rest of the received data
and whether the loop is done. -/
def readData (c : EOClient) (data : Bytes) : EOClient × Bytes × Bool :=
  let oldlength := c.data.length
  let c' := { c with data := c.data ++ data.take c.length }
  let c' := { c' with length := c.length - (c'.data.length - oldlength) }
  if c'.length = 0 then
    ({ c'.execute c'.data with data := [], packetState := .readLen1 }, data.drop c.length, true)
  else (c', data.drop c.length, false)

/-- The case `ReadLen2`, which falls through when data is left. -/
def readLen2 (c : EOClient) (b : UInt8) (data : Bytes) : EOClient × Bytes × Bool :=
  let c := { c with
    rawLength2 := b, length := number c.rawLength1 b 254 254, packetState := .readData }
  if data.length = 0 then (c, data, false) else c.readData data

def readLen1 (c : EOClient) (b : UInt8) (data : Bytes) : EOClient × Bytes × Bool :=
  let c := { c with rawLength1 := b, packetState := .readLen2 }
  match data with
  | [] => (c, [], false)
  | b :: data => c.readLen2 b data

def pass (c : EOClient) (b : UInt8) (data : Bytes) : EOClient × Bytes × Bool :=
  match c.packetState with
  | .readLen1 => c.readLen1 b data
  | .readLen2 => c.readLen2 b data
  | .readData => c.readData (b :: data)

/-- The data completes the packet. -/
theorem readData_complete {c : EOClient} {data : Bytes} (h : c.length ≤ data.length) :
    c.readData data =
      ({ c with
          length := 0, data := [], packetState := .readLen1,
          executed := c.executed ++ [c.data ++ data.take c.length] },
        data.drop c.length, true) := by
  have hLength : c.length - ((c.data ++ data.take c.length).length - c.data.length) = 0 := by
    simp only [List.length_append, List.length_take]
    omega
  simp only [readData, hLength, ↓reduceIte, execute]

/-- The data is taken as a whole, and more of the packet is to come. -/
theorem readData_short {c : EOClient} {data : Bytes} (h : data.length < c.length) :
    c.readData data =
      ({ c with length := c.length - data.length, data := c.data ++ data }, [], false) := by
  have hTake : data.take c.length = data := List.take_of_length_le (by omega)
  have hDrop : data.drop c.length = [] := List.drop_eq_nil_of_le (by omega)
  have hLength : c.length - ((c.data ++ data).length - c.data.length) = c.length - data.length := by
    simp only [List.length_append]
    omega
  simp only [readData, hTake, hDrop, hLength]
  rw [if_neg (by omega)]

/-- A pass that is not the last one leaves less data. -/
theorem pass_shorter (c : EOClient) (b : UInt8) (data : Bytes)
    (h : ¬(c.pass b data).2.2 = true) : (c.pass b data).2.1.length < (b :: data).length := by
  have hData (c : EOClient) (data : Bytes) (h : ¬(c.readData data).2.2 = true) :
      (c.readData data).2.1.length = 0 := by
    by_cases hLength : c.length ≤ data.length
    · rw [readData_complete hLength] at h
      exact absurd rfl h
    · rw [readData_short (by omega)]
      rfl
  have hLen2 (c : EOClient) (b : UInt8) (data : Bytes) (h : ¬(c.readLen2 b data).2.2 = true) :
      (c.readLen2 b data).2.1.length ≤ data.length := by
    unfold readLen2 at h ⊢
    by_cases hNone : data.length = 0
    · rw [if_pos hNone]
    · rw [if_neg hNone] at h ⊢
      have := hData _ data h
      omega
  have hPos : 0 < (b :: data).length := by simp
  cases hState : c.packetState with
  | readLen1 =>
      simp only [pass, hState] at h ⊢
      cases data with
      | nil => exact hPos
      | cons b' data =>
          have := hLen2 _ b' data h
          simp only [readLen1, List.length_cons] at this ⊢
          omega
  | readLen2 =>
      simp only [pass, hState] at h ⊢
      have := hLen2 c b data h
      simp only [List.length_cons]
      omega
  | readData =>
      simp only [pass, hState] at h ⊢
      rw [hData c (b :: data) h]
      exact hPos

/-- `while (data.length() > 0 && !done)`. -/
def tickLoop (c : EOClient) (data : Bytes) : EOClient :=
  match data with
  | [] => c
  | b :: data =>
      if (c.pass b data).2.2 then (c.pass b data).1
      else tickLoop (c.pass b data).1 (c.pass b data).2.1
termination_by data.length
decreasing_by exact pass_shorter c b data ‹_›

/-- `Tick` while no file is uploaded. -/
def tick (c : EOClient) : EOClient :=
  let (data, client) := c.client.recv (if c.packetState = .readData then c.length else 1)
  tickLoop { c with client := client } data

end EOClient

/-- What happens to a connection: bytes arrive, or it is ticked. -/
inductive StreamEvent where
  | recv (buf : Bytes)
  | tick
  deriving Repr, DecidableEq

namespace EOClient

def step (c : EOClient) : StreamEvent → Option EOClient
  | .recv buf => do
      let client ← c.client.doRecv buf
      return { c with client := client }
  | .tick => some c.tick

def run (c : EOClient) : List StreamEvent → Option EOClient
  | [] => some c
  | event :: events => do
      let c ← c.step event
      run c events

end EOClient

/-- The bytes that arrive in a run. -/
def received (events : List StreamEvent) : Bytes :=
  events.flatMap fun event => match event with
    | .recv buf => buf
    | .tick => []

end Etheos
