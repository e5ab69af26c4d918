import Etheos.General.Run
import Etheos.EOClient.ActionQueue
import Etheos.Packet.Schema
import Etheos.Stores.ChestSpawns

/-! The sequence numbers of the packets of a client. The server draws the start of the numbers, and
tells it to the client when the connection is initialized, when an account name is approved and with every ping. -/
namespace Etheos.Sequences

open General PacketProcessor
open ActionQueues (ClientState)
open ChestSpawns (rand)

/-- The numbers that are kept in an `EOClient`. -/
structure Sequence where
  seqStart : Int
  upcomingSeqStart : Int
  seq : Int
  deriving Repr, DecidableEq

namespace Sequence

variable (s : Sequence)

/-- `Initialize`. -/
def start : Sequence := ⟨0, -1, 0⟩

def initNewSequence (draw : UInt32) : Sequence := { s with seqStart := rand draw 0 1757 }

def pingNewSequence (draw : UInt32) : Sequence := { s with upcomingSeqStart := rand draw 0 1757 }

def pongNewSequence : Sequence := { s with seqStart := s.upcomingSeqStart }

def accountReplyNewSequence (draw : UInt32) : Sequence := { s with seqStart := rand draw 0 240 }

def getSeqInitBytes (draw : UInt32) : UInt8 × UInt8 :=
  let s1Max := (s.seqStart + 13).tdiv 7
  let s1Min := max 0 ((s.seqStart - 252 + 13 + 6).tdiv 7)
  let s1 := UInt8.ofInt (rand draw s1Min s1Max)
  (s1, UInt8.ofInt (s.seqStart - s1.toNat * 7 + 13))

def getSeqUpdateBytes (draw : UInt32) : UInt16 × UInt8 :=
  let s1Max := s.upcomingSeqStart + 252
  let s1Min := s.upcomingSeqStart
  let s1 := UInt16.ofInt (rand draw s1Min s1Max)
  (s1, UInt8.ofInt (s1.toNat - s.upcomingSeqStart))

/-- The number of the next packet. -/
def genSequence : Int × Sequence := (s.seqStart + s.seq, { s with seq := (s.seq + 1) % 10 })

end Sequence

def packetInternal : UInt8 := 0
def packetConnection : UInt8 := 1
def packetAccount : UInt8 := 2
def packetPing : UInt8 := 240
def packetRequest : UInt8 := 1

/-- `PACKET_F_INIT`. -/
def isInit (r : PacketReader) : Bool := r.family = packetFInit

/-- `Connection_Ping`, which a client sends back. -/
def isPing (r : PacketReader) : Bool := r.family = packetConnection ∧ r.action = packetPing

/-- `Account_Request`. -/
def isRequest (r : PacketReader) : Bool := r.family = packetAccount ∧ r.action = packetRequest

/-- The number in a packet, where the server knows how long it has to be. -/
def readSequence (serverSeq : Int) (reader : PacketReader) : Except ReadFault (Nat × PacketReader) :=
  if serverSeq ≥ 253 then (fun (n, r) => (n.toNat, r)) <$> reader.getShort
  else (fun (n, r) => (n.toNat, r)) <$> reader.getChar

/-- The part of `Execute` that is about the numbers. It says whether the packet is let through. -/
def Sequence.check (enforceSequence : Bool) (s : Sequence) (reader : PacketReader) :
    Except ReadFault (Bool × Sequence × PacketReader) :=
  if isInit reader then .ok (true, s.genSequence.2, reader)
  else do
    let s := if isPing reader then s.pongNewSequence else s
    let (serverSeq, s) := s.genSequence
    let (clientSeq, reader) ← readSequence serverSeq reader
    return (!enforceSequence || (clientSeq : Int) == serverSeq, s, reader)

/-- What a client waits for, and the pings. Of an answer to an account name only the start of the numbers is kept. -/
inductive Message where
  | init (payload : Bytes)
  | approved (payload : Bytes)
  | refused
  | ping (payload : Bytes)
  deriving Repr, DecidableEq

def Message.isPing : Message → Bool
  | .ping _ => true
  | _ => false

/-- `INIT_OK`. -/
def initOk : UInt8 := 2

/-- The reply of `Init_Init`, with what is behind the two bytes. -/
def initReply (s : Sequence) (draw : UInt32) (rest : Bytes) : Message :=
  let seqBytes := s.getSeqInitBytes draw
  .init ((((PacketBuilder.new packetFInit packetAInit).addByte initOk).addByte seqBytes.1).addByte seqBytes.2
    |>.append rest).data

/-- The reply of `Account_Request` to a name that is free. -/
def accountReply (s : Sequence) (createId : UInt16) : Message :=
  .approved (((PacketBuilder.new packetAccount 3).addShort createId).addChar (UInt8.ofInt s.seqStart)
    |>.addString [79, 75]).data

/-- The packet of `server_ping_all`. -/
def pingPacket (s : Sequence) (draw : UInt32) : Message :=
  let seqBytes := s.getSeqUpdateBytes draw
  .ping (((PacketBuilder.new packetConnection 8).addShort seqBytes.1).addChar seqBytes.2).data

/-- The server's side of a connection. `rejected` is not in the program: it says that the connection was closed
for a wrong number. -/
structure Server where
  sequence : Sequence
  needpong : Bool
  connected : Bool
  rejected : Bool
  state : ClientState
  queue : List PacketReader
  deriving DecidableEq

/-- A client that takes the starts as it receives them, and counts the packets that it sends. After `Init_Init`
and after `Account_Request` it sends nothing but answers to pings until it has its answer. -/
structure Peer where
  start : Int
  count : Int
  greeted : Bool
  waiting : Bool
  deriving DecidableEq

namespace Peer

variable (p : Peer)

/-- A number as the client writes it. -/
def sequenceBytes (n : Int) : Bytes := if n ≥ 253 then (eNumber n.toNat).take 2 else (eNumber n.toNat).take 1

def counted : Peer := { p with count := (p.count + 1) % 10 }

/-- The data of a packet, which begin with the action and the family. -/
def packet (family action : UInt8) (rest : Bytes) : Bytes :=
  action :: family :: (sequenceBytes (p.start + p.count) ++ rest)

/-- The start that the two bytes of an initialization stand for. -/
def readInit (payload : Bytes) : Except ReadFault Int := do
  let (_, r) ← (PacketReader.between [] payload).getByte
  let (s1, r) ← r.getByte
  let (s2, _) ← r.getByte
  return s1.toNat * 7 + s2.toNat - 13

def readPing (payload : Bytes) : Except ReadFault Int := do
  let (s1, r) ← (PacketReader.between [] payload).getShort
  let (s2, _) ← r.getChar
  return s1.toNat - s2.toNat

def readApproved (payload : Bytes) : Except ReadFault Int := do
  let (_, r) ← (PacketReader.between [] payload).getShort
  let (start, _) ← r.getChar
  return start.toNat

end Peer

/-- Both sides, and what is on the way between them. -/
structure Link where
  server : Server
  peer : Peer
  toServer : List Bytes
  toPeer : List Message
  deriving DecidableEq

/-- A connection that has just been made. -/
def Link.start : Link where
  server := ⟨.start, false, true, false, .uninitialized, []⟩
  peer := ⟨0, 0, false, false⟩
  toServer := []
  toPeer := []

/-- What a handler comes to, apart from the numbers. -/
inductive Outcome where
  /-- A version or a ban that is not accepted, or anything else that closes the connection. -/
  | closed
  | granted (draw draw' : UInt32) (createId : UInt16) (rest : Bytes)
  | refused
  /-- Any other handler. -/
  | other (state : ClientState)

inductive Event where
  | greet (rest : Bytes)
  | send (family action : UInt8) (rest : Bytes)
  | request (rest : Bytes)
  | receive
  | execute
  | pumpQueue (outcome : Outcome)
  | pingAll (draw draw' : UInt32)

namespace Server

def close (s : Server) : Server := { s with connected := false }

/-- `Execute`. -/
def execute (enforceSequence : Bool) (s : Server) (data : Bytes) : Except ReadFault Server :=
  if data.length < 2 ∨ s.connected = false then .ok s
  else
    let reader := PacketReader.new data
    if reader.family = packetInternal then .ok s.close
    else do
      let (inSequence, sequence, reader) ← s.sequence.check enforceSequence reader
      let s := { s with sequence }
      return if inSequence then { s with queue := s.queue ++ [reader] } else { s.close with rejected := true }

/-- `Init_Init`. -/
def initInit (s : Server) : Outcome → Option (Server × List Message)
  | .closed => some (s.close, [])
  | .granted draw draw' _ rest =>
      let sequence := s.sequence.initNewSequence draw
      some ({ s with sequence, state := .initialized }, [initReply sequence draw' rest])
  | _ => none

/-- `Account_Request`. -/
def accountRequest (s : Server) : Outcome → Option (Server × List Message)
  | .refused => some (s, [.refused])
  | .granted draw _ createId _ =>
      let sequence := if s.sequence.seqStart > 240 then s.sequence.accountReplyNewSequence draw else s.sequence
      some ({ s with sequence }, [accountReply sequence createId])
  | _ => none

/-- `Connection_Ping`. -/
def connectionPing (s : Server) (reader : PacketReader) : Except ReadFault Server := do
  let (str, _) ← reader.getEndString
  return if str ≠ [107] then s.close else { s with needpong := false }

/-- `Handle`. The other handlers have no part in the numbers. -/
def handle (s : Server) (reader : PacketReader) (outcome : Outcome) : Option (Server × List Message) :=
  if isInit reader then
    if reader.action = packetAInit ∧ s.state = .uninitialized then s.initInit outcome else some (s, [])
  else if isPing reader then (s.connectionPing reader).toOption.map (·, [])
  else if isRequest reader then
    if s.state = .initialized then s.accountRequest outcome else some (s, [])
  else
    match outcome with
    | .closed => some (s.close, [])
    | .other state => some ({ s with state }, [])
    | _ => none

/-- `server_pump_queue`. -/
def pumpQueue (s : Server) (outcome : Outcome) : Option (Server × List Message) :=
  if s.connected = false then some (s, [])
  else
    match s.queue with
    | [] => some (s, [])
    | reader :: queue => handle { s with queue } reader outcome

/-- `server_ping_all`. -/
def pingAll (s : Server) (draw draw' : UInt32) : Server × List Message :=
  if s.needpong then (s.close, [])
  else
    let sequence := s.sequence.pingNewSequence draw
    ({ s with sequence, needpong := true }, [pingPacket sequence draw'])

end Server

/-- A client receives a message. It answers a ping with a packet of the new numbers. -/
def Peer.receive (p : Peer) : Message → Except ReadFault (Peer × List Bytes)
  | .init payload => (fun start => ({ p with start, waiting := false }, [])) <$> readInit payload
  | .approved payload => (fun start => ({ p with start, waiting := false }, [])) <$> readApproved payload
  | .refused => .ok ({ p with waiting := false }, [])
  | .ping payload =>
      (fun start =>
        let p := { p with start }
        (p.counted, [p.packet packetConnection packetPing [107]])) <$> readPing payload

variable (enforceSequence : Bool)

def step (s : Link) : Event → Option Link
  | .greet rest =>
      if s.peer.greeted then none
      else some { s with
        peer := { s.peer.counted with greeted := true, waiting := true }
        toServer := s.toServer ++ [packetAInit :: packetFInit :: rest] }
  | .send family action rest =>
      if s.peer.greeted = false ∨ s.peer.waiting ∨ family = packetInternal ∨ family = packetFInit ∨
        (family = packetConnection ∧ action = packetPing) ∨ (family = packetAccount ∧ action = packetRequest) then none
      else some { s with
        peer := s.peer.counted
        toServer := s.toServer ++ [s.peer.packet family action rest] }
  | .request rest =>
      if s.peer.greeted = false ∨ s.peer.waiting then none
      else some { s with
        peer := { s.peer.counted with waiting := true }
        toServer := s.toServer ++ [s.peer.packet packetAccount packetRequest rest] }
  | .receive =>
      match s.toPeer with
      | [] => none
      | message :: toPeer =>
          (s.peer.receive message).toOption.map fun r => { s with peer := r.1, toServer := s.toServer ++ r.2, toPeer }
  | .execute =>
      match s.toServer with
      | [] => none
      | data :: toServer => (s.server.execute enforceSequence data).toOption.map ({ s with server := ·, toServer })
  | .pumpQueue outcome =>
      (s.server.pumpQueue outcome).map fun r => { s with server := r.1, toPeer := s.toPeer ++ r.2 }
  | .pingAll draw draw' =>
      let r := s.server.pingAll draw draw'
      some { s with server := r.1, toPeer := s.toPeer ++ r.2 }

/-- A ping is on its way, or the answer to it is. -/
def Link.pinged (s : Link) : Bool :=
  s.toPeer.any Message.isPing || s.toServer.any (isPing <| .new ·)

/-- A handler tells a start to a client that has a ping to answer. -/
def GrantsWhilePinged (s : Link) : Event → Prop
  | .pumpQueue (.granted ..) => s.pinged
  | _ => False

instance : ∀ s event, Decidable (GrantsWhilePinged s event)
  | s, .pumpQueue (.granted ..) => inferInstanceAs (Decidable (s.pinged = true))
  | _, .pumpQueue .closed | _, .pumpQueue .refused | _, .pumpQueue (.other _) => isFalse id
  | _, .greet _ | _, .send .. | _, .request _ | _, .receive | _, .execute | _, .pingAll .. => isFalse id

end Etheos.Sequences
