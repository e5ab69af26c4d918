import Etheos.EOClient.Sequence
import Etheos.EOClient.Tick

/-! The connection below its packets. The client writes each packet with its length in front and encoded, the network
hands the bytes over in pieces of any size, and the server cuts them into packets again. -/
namespace Etheos.Wires

open General PacketProcessor
open ChestSpawns (rand)
open Sequences (Message Outcome Peer Link)

/-- A body with its length in front. -/
def frame (body : Bytes) : Bytes := (eNumber body.length).take 2 ++ body

/-- The last three fields are not in the program: the bodies that the client has written, the packets that it meant
by them, and the packets that have come into the server's queue. -/
structure Wire where
  server : Sequences.Server
  processor : PacketProcessor
  parser : EOClient
  peer : Peer
  /-- The multiplier that the client encodes with. -/
  multi : UInt8
  network : Bytes
  toPeer : List Message
  wires : List Bytes
  sent : List Bytes
  taken : List Bytes
  deriving DecidableEq

/-- A connection that has just been made. -/
def Wire.start (k : Nat) : Wire where
  server := Link.start.server
  processor := ⟨0, 0⟩
  parser := EOClient.new (.setRecvBuffer (2 ^ k))
  peer := Link.start.peer
  multi := 0
  network := []
  toPeer := []
  wires := []
  sent := []
  taken := []

inductive Event where
  /-- One side does something with packets. The client writes what it sends as these bodies. -/
  | packets (event : Sequences.Event) (bodies : List Bytes) (drawE drawD : UInt32)
  /-- A piece of what is on its way arrives. -/
  | deliver (n : Nat)
  | tick

/-- `util::rand(6, 12)` of `Init_Init`. -/
def multiplier (draw : UInt32) : UInt8 := UInt8.ofInt (rand draw 6 12)

/-- The reply of `Init_Init` goes on with the two multipliers. -/
def withMultipliers (proc : PacketProcessor) : Sequences.Event → Sequences.Event
  | .pumpQueue (.granted draw draw' createId rest) =>
      .pumpQueue (.granted draw draw' createId (proc.emultiE :: proc.emultiD :: rest))
  | event => event

/-- `Init_Init` is called, and goes well. -/
def initializes (s : Sequences.Server) : Sequences.Event → Bool
  | .pumpQueue (.granted ..) => s.connected && s.queue.head?.any fun reader =>
      Sequences.isInit reader && reader.action == packetAInit && s.state == .uninitialized
  | _ => false

/-- The second multiplier of an initialization. -/
def readMulti (payload : Bytes) : Except ReadFault UInt8 := do
  let (_, r) ← (PacketReader.between [] payload).getByte
  let (_, r) ← r.getByte
  let (_, r) ← r.getByte
  let (_, r) ← r.getByte
  let (d, _) ← r.getByte
  return d

/-- The server decodes these bodies to the packets, and they fit behind two length bytes. -/
def Writes (multi : UInt8) (bodies packets : List Bytes) : Prop :=
  bodies.map (decode ⟨0, multi⟩) = packets ∧ ∀ body ∈ bodies, 2 ≤ body.length ∧ body.length < max2

instance (multi : UInt8) (bodies packets : List Bytes) : Decidable (Writes multi bodies packets) :=
  inferInstanceAs (Decidable (_ ∧ _))

namespace Wire

variable (w : Wire)

/-- What has been written and not yet executed. -/
def pending : List Bytes := w.wires.drop w.parser.executed.length

/-- The connection as its packets show it. -/
def link : Link := ⟨w.server, w.peer, w.pending.map (decode w.processor), w.toPeer⟩

/-- The multiplier that the client goes on with. -/
def nextMulti : Sequences.Event → Option UInt8
  | .receive =>
      match w.toPeer with
      | .init payload :: _ => (readMulti payload).toOption
      | _ => some w.multi
  | _ => some w.multi

variable (enforceSequence : Bool)

/-- `Execute`, which decodes first. -/
def execute (w : Wire) (body : Bytes) : Option Wire :=
  (w.server.execute enforceSequence (decode w.processor body)).toOption.map fun server =>
    { w with server, taken := w.taken ++ (server.queue.drop w.server.queue.length).map (·.data) }

end Wire

variable (enforceSequence : Bool)

def step (w : Wire) : Event → Option Wire
  | .packets .execute .. => none
  | .packets event bodies drawE drawD => do
      let proc := ⟨multiplier drawE, multiplier drawD⟩
      let next ← Sequences.step enforceSequence ⟨w.server, w.peer, [], w.toPeer⟩ (withMultipliers proc event)
      let multi ← w.nextMulti event
      if Writes multi bodies next.toServer then
        some { w with
          server := next.server
          processor := if initializes w.server event then proc else w.processor
          peer := next.peer
          multi
          network := w.network ++ bodies.flatMap frame
          toPeer := next.toPeer
          wires := w.wires ++ bodies
          sent := w.sent ++ next.toServer }
      else none
  | .deliver n =>
      (w.parser.step (.recv (w.network.take n))).map fun parser => { w with parser, network := w.network.drop n }
  | .tick =>
      let parser := w.parser.tick
      (parser.executed.drop w.parser.executed.length).foldlM (Wire.execute enforceSequence) { w with parser }

/-- A handler tells a start to a client that has a ping to answer. -/
def GrantsWhilePinged (w : Wire) : Event → Prop
  | .packets event .. => Sequences.GrantsWhilePinged w.link event
  | _ => False

instance : ∀ w event, Decidable (GrantsWhilePinged w event)
  | w, .packets event .. => inferInstanceAs (Decidable (Sequences.GrantsWhilePinged w.link event))
  | _, .deliver _ | _, .tick => isFalse id

end Etheos.Wires
