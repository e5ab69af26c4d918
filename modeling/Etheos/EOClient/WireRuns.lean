import Etheos.EOClient.SequenceRuns
import Etheos.EOClient.Stream
import Etheos.EOClient.Wire
import Etheos.General.Simulation

/-! What the server takes from a connection are the packets that the client has sent, in whatever pieces their bytes
arrive: the runs of the connection below its packets are simulated by runs on packets. -/
namespace Etheos.Wires

open General General.Frames PacketProcessor
open Sequences (Message Outcome Peer Link asks isInit)

section Frames

theorem frameLength_eNumber {body : Bytes} (h : body.length < max2) :
    frameLength ((eNumber body.length).getD 0 0) ((eNumber body.length).getD 1 0) = body.length := by
  rw [frameLength, number_eNumber_low, Nat.mod_eq_of_lt h]

theorem frame_eq (body : Bytes) :
    frame body = (eNumber body.length).getD 0 0 :: (eNumber body.length).getD 1 0 :: body := rfl

/-- The bodies that have been written are the frames of the stream. -/
theorem split_frames {bodies : List Bytes} (h : ∀ body ∈ bodies, 2 ≤ body.length ∧ body.length < max2) :
    split frameLength (bodies.flatMap frame) = (bodies, []) := by
  induction bodies with
  | nil => exact split_short (by decide)
  | cons body bodies ih =>
      obtain ⟨hFirst, hRest⟩ := List.forall_mem_cons.mp h
      rw [List.flatMap_cons, frame_eq, List.cons_append, List.cons_append,
        split_frame (frameLength_eNumber hFirst.2), ih hRest]

/-- What a tick executes comes behind what was executed before. -/
theorem executed_tick {c : EOClient} (h : c.Ready) : c.executed <+: c.tick.executed := by
  cases hState : c.packetState with
  | readLen1 =>
      obtain ⟨client, -, -, hTick⟩ := EOClient.tick_readLen1 h hState
      rw [hTick]
      split <;> exact List.prefix_rfl
  | readLen2 =>
      obtain ⟨client, -, -, hTick⟩ := EOClient.tick_readLen2 h hState
      rw [hTick]
      split <;> exact List.prefix_rfl
  | readData =>
      obtain ⟨client, -, -, hTick⟩ := EOClient.tick_readData h hState
      rw [hTick]
      split
      · exact List.prefix_rfl
      · split
        · exact List.prefix_append ..
        · exact List.prefix_rfl

/-- What the parser has received, and what is on its way to it, are the frames of the bodies. -/
structure Streams (w : Wire) : Prop where
  bodies : ∀ body ∈ w.wires, 2 ≤ body.length ∧ body.length < max2
  tracks : ∃ stream, EOClient.Tracks stream w.parser ∧ stream ++ w.network = w.wires.flatMap frame

theorem Streams.executed {w : Wire} (h : Streams w) : w.parser.executed <+: w.wires := by
  obtain ⟨stream, hTracks, hStream⟩ := h.tracks
  have hSplit := (hTracks.cut.append w.network).split_eq
  rw [hStream, split_frames h.bodies] at hSplit
  exact ⟨_, (congrArg Prod.fst hSplit).symm⟩

/-- When everything has arrived, enough ticks execute all that has been written. -/
theorem Streams.drains {w : Wire} (h : Streams w) (hEmpty : w.network = []) :
    ∃ n, ∀ m, n ≤ m → (EOClient.tick^[m] w.parser).executed = w.wires := by
  obtain ⟨stream, hTracks, hStream⟩ := h.tracks
  rw [hEmpty, List.append_nil] at hStream
  have hFrames : [] ∉ (split frameLength stream).1 := by
    rw [hStream, split_frames h.bodies]
    intro hMem
    exact absurd (h.bodies [] hMem).1 (by decide)
  obtain ⟨-, n, hAll⟩ := hTracks.delivers_tracked.mpr hFrames
  refine ⟨n, fun m hm => ?_⟩
  rw [(hAll m hm).1, hStream, split_frames h.bodies]

end Frames

section Packets

variable {enforceSequence : Bool} {s : Link} {w : Wire}

/-- A packet with the right number comes into the queue. -/
theorem execute_accepted (enforceSequence : Bool) {server : Sequences.Server} {data : Bytes}
    (h : Sequences.Accepted server.sequence data) (hConnected : server.connected = true) :
    ∃ pos, server.execute enforceSequence data =
      .ok { server with sequence := server.sequence.after data, queue := server.queue ++ [⟨data, pos⟩] } := by
  obtain ⟨pos, hCheck⟩ := h.check enforceSequence
  refine ⟨pos, ?_⟩
  rw [Sequences.Server.execute, if_neg (not_or.mpr ⟨Nat.not_lt.mpr h.long, by simp [hConnected]⟩), if_neg h.family]
  simp only [hCheck, Bind.bind, Except.bind, if_true]
  rfl

/-- A connection that is closed executes nothing. -/
theorem foldlM_closed (bodies : List Bytes) (hClosed : w.server.connected = false) :
    bodies.foldlM (Wire.execute enforceSequence) w = some w := by
  have hExecute (body : Bytes) : w.execute enforceSequence body = some w := by
    have hServer : w.server.execute enforceSequence (decode w.processor body) = .ok w.server := if_pos (.inr hClosed)
    simp only [Wire.execute, hServer, Except.toOption, Option.map_some, List.drop_length, List.map_nil,
      List.append_nil]
  induction bodies with
  | nil => rfl
  | cons body bodies ih =>
      rw [List.foldlM_cons, hExecute]
      exact ih

/-- Bodies that stand for the packets in front are executed as these packets. -/
theorem foldlM_execute (enforceSequence : Bool) (bodies : List Bytes) (hServer : s.server = w.server)
    (hKept : s.Kept) (hConnected : w.server.connected = true) {rest : List Bytes}
    (hTo : s.toServer = bodies.map (decode w.processor) ++ rest) :
    ∃ server, bodies.foldlM (Wire.execute enforceSequence) w =
        some { w with server, taken := w.taken ++ bodies.map (decode w.processor) } ∧
      server.connected = true ∧
      run (Sequences.step enforceSequence) s (List.replicate bodies.length .execute) =
        some { s with server, toServer := rest } ∧
      ({ s with server, toServer := rest } : Link).Kept := by
  induction bodies generalizing s w with
  | nil =>
      have hSame : ({ s with server := w.server, toServer := rest } : Link) = s := by
        rw [← hServer, ← show s.toServer = rest from hTo]
      refine ⟨w.server, ?_, hConnected, ?_, ?_⟩
      · simp
      · rw [hSame]
        rfl
      · rw [hSame]
        exact hKept
  | cons body bodies ih =>
      have hFirst : s.toServer = decode w.processor body :: (bodies.map (decode w.processor) ++ rest) := hTo
      have hAccepted : Sequences.Accepted s.server.sequence (decode w.processor body) := by
        have hAll := (hKept.agrees (hServer ▸ hConnected)).accepts
        rw [hFirst] at hAll
        exact hAll.1
      obtain ⟨pos, hExecute⟩ := execute_accepted enforceSequence hAccepted (hServer ▸ hConnected)
      rw [hServer] at hExecute
      let server : Sequences.Server :=
        { w.server with
          sequence := w.server.sequence.after (decode w.processor body)
          queue := w.server.queue ++ [⟨decode w.processor body, pos⟩] }
      let next : Link := { s with server, toServer := bodies.map (decode w.processor) ++ rest }
      have hStep : Sequences.step enforceSequence s .execute = some next := by
        simp only [Sequences.step, hFirst, hServer, hExecute]
        rfl
      have hBody : w.execute enforceSequence body =
          some { w with server, taken := w.taken ++ [decode w.processor body] } := by
        simp only [Wire.execute, hExecute]
        simp [server, Except.toOption]
      obtain ⟨last, hFold, hOpen, hRun, hEnd⟩ := ih (s := next)
        (w := { w with server, taken := w.taken ++ [decode w.processor body] }) rfl
        (hKept.step id hStep) hConnected rfl
      refine ⟨last, ?_, hOpen, ?_, hEnd⟩
      · rw [List.foldlM_cons, hBody]
        refine hFold.trans ?_
        simp
      · rw [List.length_cons, List.replicate_succ, run_cons hStep]
        exact hRun

/-- Everything but the taking of a packet is done in the same way with packets on the way. -/
theorem step_behind {event : Sequences.Event} (hEvent : event ≠ .execute) {next : Link}
    (h : Sequences.step enforceSequence { s with toServer := [] } event = some next) :
    Sequences.step enforceSequence s event = some { next with toServer := s.toServer ++ next.toServer } := by
  cases event with
  | execute => contradiction
  | greet rest | send family action rest | request rest =>
      obtain ⟨hNot, hNext⟩ := Option.ite_none_left_eq_some.mp h
      obtain rfl := Option.some.inj hNext
      exact if_neg hNot
  | receive =>
      cases hTo : s.toPeer with
      | nil => simp [Sequences.step, hTo] at h
      | cons message toPeer =>
          simp only [Sequences.step, hTo] at h ⊢
          obtain ⟨r, hReceive, rfl⟩ := Option.map_eq_some_iff.mp h
          rw [hReceive]
          rfl
  | pumpQueue outcome =>
      obtain ⟨r, hPump, rfl⟩ := Option.map_eq_some_iff.mp h
      simp [Sequences.step, hPump]
  | pingAll draw draw' =>
      obtain rfl := Option.some.inj h
      simp [Sequences.step]

end Packets

section Multipliers

/-- The message tells the client its multiplier. -/
def tells : Message → Bool
  | .init _ => true
  | _ => false

/-- The client encodes with what the server decodes with, or is going to be told it before anything else. -/
inductive Synced (multi emultiD : UInt8) (toPeer : List Message) : Prop
  | same (hSame : multi = emultiD) (hNone : ∀ message ∈ toPeer, tells message = false)
  | told {payload : Bytes} {rest : List Message} (hTo : toPeer = .init payload :: rest)
      (hReads : readMulti payload = .ok emultiD) (hNone : ∀ message ∈ rest, tells message = false)

variable {multi emultiD : UInt8} {toPeer : List Message}

theorem Synced.append (h : Synced multi emultiD toPeer) {more : List Message}
    (hMore : ∀ message ∈ more, tells message = false) : Synced multi emultiD (toPeer ++ more) := by
  cases h with
  | same hSame hNone => exact .same hSame (List.forall_mem_append.mpr ⟨hNone, hMore⟩)
  | told hTo hReads hNone =>
      rw [hTo]
      exact .told (List.cons_append ..) hReads (List.forall_mem_append.mpr ⟨hNone, hMore⟩)

/-- A client that waits for nothing has been told. -/
theorem Synced.same_of_silent (h : Synced multi emultiD toPeer)
    (hSilent : ∀ message ∈ toPeer, message.answers = false) : multi = emultiD := by
  cases h with
  | same hSame _ => exact hSame
  | told hTo _ _ => exact absurd (hSilent _ (hTo ▸ List.mem_cons_self ..)) (by simp [Message.answers])

theorem initReply_multi (sequence : Sequences.Sequence) (draw : UInt32) (proc : PacketProcessor) (rest : Bytes) :
    ∃ payload, Sequences.initReply sequence draw (proc.emultiE :: proc.emultiD :: rest) = .init payload ∧
      readMulti payload = .ok proc.emultiD := by
  have hPayload : ((((PacketBuilder.new packetFInit packetAInit).addByte Sequences.initOk).addByte
      (sequence.getSeqInitBytes draw).1).addByte (sequence.getSeqInitBytes draw).2
      |>.append (proc.emultiE :: proc.emultiD :: rest)).data =
      Sequences.initOk :: (sequence.getSeqInitBytes draw).1 :: (sequence.getSeqInitBytes draw).2 ::
        proc.emultiE :: proc.emultiD :: rest := by
    simp [PacketBuilder.addByte, PacketBuilder.new, PacketBuilder.setID]
  refine ⟨_, rfl, ?_⟩
  rw [hPayload]
  simp only [readMulti, PacketReader.getByte_between, Bind.bind, Except.bind]
  rfl

/-- The multipliers are told when the connection is initialized, and at no other time. -/
theorem pumpQueue_tells {server : Sequences.Server} {outcome : Outcome} {r : Sequences.Server × List Message}
    (h : server.pumpQueue outcome = some r) (hNot : initializes server (.pumpQueue outcome) = false) :
    ∀ message ∈ r.2, tells message = false := by
  unfold Sequences.Server.pumpQueue at h
  split at h
  · obtain rfl := Option.some.inj h
    simp
  next hConnected =>
  split at h
  · obtain rfl := Option.some.inj h
    simp
  next reader queue hQueue =>
  unfold Sequences.Server.handle at h
  split at h
  next hInit =>
    split at h
    next hFirst =>
      cases outcome with
      | granted draw draw' createId rest =>
          have hState : server.state = .uninitialized := hFirst.2
          simp [initializes, hQueue, hInit, hFirst.1, hState, hConnected] at hNot
      | closed =>
          obtain rfl := Option.some.inj h
          simp
      | refused | other => contradiction
    next =>
      obtain rfl := Option.some.inj h
      simp
  next hInit =>
  split at h
  · obtain ⟨server', -, rfl⟩ := Option.map_eq_some_iff.mp h
    simp
  split at h
  · split at h
    · cases outcome with
      | granted draw draw' createId rest =>
          obtain rfl := Option.some.inj h
          simp [Sequences.accountReply, tells]
      | refused =>
          obtain rfl := Option.some.inj h
          simp [tells]
      | closed | other => contradiction
    · obtain rfl := Option.some.inj h
      simp
  · cases outcome with
    | closed | other =>
        obtain rfl := Option.some.inj h
        simp
    | granted | refused => contradiction

/-- What an initialization comes to. -/
theorem pumpQueue_initializes {server : Sequences.Server} {outcome : Outcome}
    (h : initializes server (.pumpQueue outcome) = true) :
    ∃ reader queue draw draw' createId rest, server.queue = reader :: queue ∧ server.connected = true ∧
      isInit reader = true ∧ outcome = .granted draw draw' createId rest ∧
      server.pumpQueue outcome = some
        ({ server with queue, sequence := server.sequence.initNewSequence draw, state := .initialized },
          [Sequences.initReply (server.sequence.initNewSequence draw) draw' rest]) := by
  cases outcome with
  | closed | refused | other => contradiction
  | granted draw draw' createId rest =>
      obtain ⟨hConnected, hHead⟩ := Bool.and_eq_true_iff.mp h
      cases hQueue : server.queue with
      | nil => simp [hQueue] at hHead
      | cons reader queue =>
          have hAll : (isInit reader = true ∧ reader.action = packetAInit) ∧ server.state = .uninitialized := by
            simpa [hQueue] using hHead
          refine ⟨reader, queue, draw, draw', createId, rest, rfl, hConnected, hAll.1.1, rfl, ?_⟩
          rw [Sequences.Server.pumpQueue, if_neg (by simp [hConnected]), hQueue]
          simp only [Sequences.Server.handle, hAll.1.1, if_true]
          rw [if_pos ⟨hAll.1.2, hAll.2⟩]
          rfl

end Multipliers

section Steps

variable {enforceSequence : Bool} {w : Wire} {event : Sequences.Event} {proc : PacketProcessor} {next : Link}
  {multi : UInt8} {bodies : List Bytes}

/-- The connection behind something that happened to its packets. -/
def Wire.after (w : Wire) (event : Sequences.Event) (proc : PacketProcessor) (next : Link) (multi : UInt8)
    (bodies : List Bytes) : Wire :=
  { w with
    server := next.server
    processor := if initializes w.server event then proc else w.processor
    peer := next.peer
    multi
    network := w.network ++ bodies.flatMap frame
    toPeer := next.toPeer
    wires := w.wires ++ bodies
    sent := w.sent ++ next.toServer }

/-- Both sides see the same packets. -/
structure Level (w : Wire) : Prop where
  synced : Synced w.multi w.processor.emultiD w.toPeer
  sent : w.sent = w.taken ++ w.link.toServer

theorem Level.peer (h : Level w) (hSilent : w.peer.waiting = false) (hAgrees : w.link.Agrees) :
    w.multi = w.processor.emultiD :=
  h.synced.same_of_silent (hAgrees.not_waiting hSilent).2

/-- What is told and written keeps the two sides together. -/
theorem Level.kept (h : Level w) (hAgrees : w.link.Agrees) (hGood : ¬Sequences.GrantsWhilePinged w.link event)
    (hNext : Sequences.step enforceSequence ⟨w.server, w.peer, [], w.toPeer⟩ (withMultipliers proc event) = some next)
    (hMulti : w.nextMulti event = some multi) (bodies : List Bytes) :
    Synced multi (w.after event proc next multi bodies).processor.emultiD next.toPeer ∧
      (next.toServer = [] ∨ multi = w.processor.emultiD ∧ initializes w.server event = false) ∧
      (initializes w.server event = true → w.link.toServer = []) := by
  cases event with
  | execute => contradiction
  | greet rest =>
      obtain ⟨hNot, hNext⟩ := Option.ite_none_left_eq_some.mp hNext
      obtain rfl := Option.some.inj hNext
      obtain rfl := Option.some.inj hMulti
      have hGreeted : w.peer.greeted = false := by simpa using hNot
      have hSame := h.peer (hAgrees.greeted hGreeted) hAgrees
      exact ⟨h.synced, .inr ⟨hSame, rfl⟩, by simp [initializes]⟩
  | send family action rest | request rest =>
      obtain ⟨hNot, hNext⟩ := Option.ite_none_left_eq_some.mp hNext
      obtain rfl := Option.some.inj hNext
      obtain rfl := Option.some.inj hMulti
      have hWaiting : w.peer.waiting = false := by
        by_contra hWaits
        exact hNot (by simp [hWaits])
      exact ⟨h.synced, .inr ⟨h.peer hWaiting hAgrees, rfl⟩, by simp [initializes]⟩
  | receive =>
      cases hTo : w.toPeer with
      | nil => simp [Sequences.step, withMultipliers, hTo] at hNext
      | cons message toPeer =>
          simp only [Sequences.step, withMultipliers, hTo] at hNext
          obtain ⟨r, hReceive, rfl⟩ := Option.map_eq_some_iff.mp hNext
          have hTold : multi = w.processor.emultiD ∧ ∀ message ∈ toPeer, tells message = false := by
            cases h.synced with
            | same hSame hNone =>
                rw [hTo] at hNone
                obtain ⟨hFirst, hRest⟩ := List.forall_mem_cons.mp hNone
                cases message with
                | init payload => contradiction
                | approved | refused | ping =>
                    simp only [Wire.nextMulti, hTo, Option.some.injEq] at hMulti
                    exact ⟨hMulti ▸ hSame, hRest⟩
            | told hFirst hReads hNone =>
                obtain ⟨rfl, rfl⟩ := List.cons.inj (hTo.symm.trans hFirst)
                simp only [Wire.nextMulti, hTo, hReads, Except.toOption, Option.some.injEq] at hMulti
                exact ⟨hMulti.symm, hNone⟩
          exact ⟨.same hTold.1 hTold.2, .inr ⟨hTold.1, rfl⟩, by simp [initializes]⟩
  | pumpQueue outcome =>
      obtain rfl := Option.some.inj hMulti
      cases hInit : initializes w.server (.pumpQueue outcome) with
      | false =>
          have hTells : ∀ r, Sequences.step enforceSequence ⟨w.server, w.peer, [], w.toPeer⟩
              (withMultipliers proc (.pumpQueue outcome)) = some r →
              ∃ more, r = ⟨r.server, w.peer, [], w.toPeer ++ more⟩ ∧ ∀ message ∈ more, tells message = false := by
            intro r hr
            cases outcome with
            | closed | refused | other | granted =>
                obtain ⟨q, hPump, rfl⟩ := Option.map_eq_some_iff.mp hr
                exact ⟨q.2, rfl, pumpQueue_tells hPump hInit⟩
          obtain ⟨more, hSame, hNone⟩ := hTells next hNext
          rw [hSame]
          refine ⟨?_, .inl rfl, by simp⟩
          simp only [Wire.after, hInit]
          exact h.synced.append hNone
      | true =>
          obtain ⟨reader, queue, draw, draw', createId, rest, hQueue, hConnected, hFirst, rfl, -⟩ :=
            pumpQueue_initializes hInit
          obtain ⟨reader', queue', draw₂, draw₂', createId', rest', hQueue', -, -, hOutcome, hPump⟩ :=
            @pumpQueue_initializes w.server
              (.granted draw draw' createId (proc.emultiE :: proc.emultiD :: rest)) hInit
          obtain ⟨rfl, rfl, rfl, rfl⟩ := Outcome.granted.inj hOutcome
          have hPinged : w.link.pinged = false := Bool.not_eq_true _ ▸ hGood
          have hAsks : asks reader.data = true := Bool.or_eq_true_iff.mpr (.inl hFirst)
          obtain ⟨hToServer, hToPeer⟩ := hAgrees.quiet (s := w.link) hQueue hAsks hPinged
          have hEmpty : w.toPeer = [] := hToPeer
          simp only [Sequences.step, withMultipliers, hPump, Option.map_some, Option.some.injEq] at hNext
          obtain rfl := hNext
          obtain ⟨payload, hReply, hReads⟩ :=
            initReply_multi (w.server.sequence.initNewSequence draw) draw' proc rest
          refine ⟨?_, .inl rfl, fun _ => hToServer⟩
          simp only [Wire.after, hInit, if_true, hEmpty, List.nil_append]
          exact .told (congrArg (fun reply => [reply]) hReply) hReads (by simp)
  | pingAll draw draw' =>
      obtain rfl := Option.some.inj hMulti
      obtain rfl := Option.some.inj hNext
      refine ⟨h.synced.append ?_, .inl rfl, by simp [initializes]⟩
      unfold Sequences.Server.pingAll
      split
      · simp
      · simp [Sequences.pingPacket, tells]

theorem Streams.packets (h : Streams w) (event : Sequences.Event) (proc : PacketProcessor)
    (hWrites : Writes multi bodies next.toServer) :
    Streams (w.after event proc next multi bodies) := by
  obtain ⟨stream, hTracks, hStream⟩ := h.tracks
  refine ⟨List.forall_mem_append.mpr ⟨h.bodies, hWrites.2⟩, stream, hTracks, ?_⟩
  simp only [Wire.after, List.flatMap_append, ← hStream, List.append_assoc]

theorem Streams.pending_append (h : Streams w) (event : Sequences.Event) (proc : PacketProcessor) (next : Link)
    (multi : UInt8) (bodies : List Bytes) :
    (w.after event proc next multi bodies).pending = w.pending ++ bodies := by
  have hLe := h.executed.length_le
  simp only [Wire.pending, Wire.after, List.drop_append_of_le_length hLe]

theorem Level.packets (h : Level w) (hStreams : Streams w) (hAgrees : w.link.Agrees)
    (hGood : ¬Sequences.GrantsWhilePinged w.link event)
    (hNext : Sequences.step enforceSequence ⟨w.server, w.peer, [], w.toPeer⟩ (withMultipliers proc event) = some next)
    (hMulti : w.nextMulti event = some multi) (hWrites : Writes multi bodies next.toServer) :
    (w.after event proc next multi bodies).link.toServer = w.link.toServer ++ next.toServer ∧
      Level (w.after event proc next multi bodies) := by
  obtain ⟨hSynced, hWritten, hQuiet⟩ := h.kept hAgrees hGood hNext hMulti bodies
  have hPending := hStreams.pending_append event proc next multi bodies
  have hBodies : bodies.map (decode (w.after event proc next multi bodies).processor) = next.toServer := by
    obtain hNone | ⟨rfl, hSame⟩ := hWritten
    · have hEmpty : bodies = [] := List.map_eq_nil_iff.mp (hWrites.1.trans hNone)
      rw [hEmpty, hNone]
      rfl
    · simp only [Wire.after, hSame]
      exact hWrites.1
  have hOld : w.pending.map (decode (w.after event proc next multi bodies).processor) = w.link.toServer := by
    cases hInit : initializes w.server event with
    | false =>
        simp only [Wire.after, hInit]
        rfl
    | true =>
        have hEmpty : w.pending = [] := List.map_eq_nil_iff.mp (hQuiet hInit)
        rw [hQuiet hInit, hEmpty]
        rfl
  have hTo : (w.after event proc next multi bodies).link.toServer = w.link.toServer ++ next.toServer := by
    show (Wire.pending _).map _ = _
    rw [hPending, List.map_append, hBodies, hOld]
  refine ⟨hTo, hSynced, ?_⟩
  rw [hTo]
  show w.sent ++ next.toServer = w.taken ++ (w.link.toServer ++ next.toServer)
  rw [h.sent, List.append_assoc]

/-- The packets of a connection are those of a connection that is made of packets. After it is closed, the two may
differ in what is still on its way to the server. -/
structure Follows (w : Wire) (s : Link) : Prop where
  server : s.server = w.server
  peer : s.peer = w.peer
  toPeer : s.toPeer = w.toPeer
  kept : s.Kept
  streams : Streams w
  level : w.server.connected = true → s.toServer = w.link.toServer ∧ Level w

variable {s : Link}

theorem Follows.link_eq (h : Follows w s) (hConnected : w.server.connected = true) : s = w.link := by
  obtain ⟨server, peer, toServer, toPeer⟩ := s
  obtain rfl := h.server
  obtain rfl := h.peer
  obtain rfl := h.toPeer
  obtain rfl := (h.level hConnected).1
  rfl

theorem withMultipliers_grants (proc : PacketProcessor) (s : Link) (event : Sequences.Event) :
    Sequences.GrantsWhilePinged s (withMultipliers proc event) ↔ Sequences.GrantsWhilePinged s event := by
  cases event with
  | pumpQueue outcome => cases outcome <;> rfl
  | greet | send | request | receive | execute | pingAll => rfl

theorem withMultipliers_execute (proc : PacketProcessor) {event : Sequences.Event} (h : event ≠ .execute) :
    withMultipliers proc event ≠ .execute := by
  cases event with
  | pumpQueue outcome => cases outcome <;> simp [withMultipliers]
  | execute => exact absurd rfl h
  | greet | send | request | receive | pingAll => simp [withMultipliers]

/-- A closed connection stays closed, and its queue is not handled any more. -/
theorem closed_step (hClosed : w.server.connected = false)
    (hNext : Sequences.step enforceSequence ⟨w.server, w.peer, [], w.toPeer⟩ event = some next) :
    next.server.connected = false ∧
      ∀ outcome, event = .pumpQueue outcome → next = ⟨w.server, w.peer, [], w.toPeer⟩ := by
  cases event with
  | execute => contradiction
  | greet | send | request =>
      obtain ⟨-, hSome⟩ := Option.ite_none_left_eq_some.mp hNext
      obtain rfl := Option.some.inj hSome
      exact ⟨hClosed, by simp⟩
  | receive =>
      cases hTo : w.toPeer with
      | nil => simp [Sequences.step, hTo] at hNext
      | cons message toPeer =>
          simp only [Sequences.step, hTo] at hNext
          obtain ⟨r, -, rfl⟩ := Option.map_eq_some_iff.mp hNext
          exact ⟨hClosed, by simp⟩
  | pumpQueue outcome =>
      obtain ⟨r, hPump, rfl⟩ := Option.map_eq_some_iff.mp hNext
      rw [Sequences.Server.pumpQueue, if_pos hClosed] at hPump
      obtain rfl := Option.some.inj hPump
      exact ⟨hClosed, fun _ _ => by simp⟩
  | pingAll draw draw' =>
      obtain rfl := Option.some.inj hNext
      refine ⟨?_, by simp⟩
      simp only [Sequences.Server.pingAll]
      split
      · rfl
      · exact hClosed

/-- Something happens to the packets. -/
theorem Follows.packets (h : Follows w s) (hEvent : event ≠ .execute)
    (hGood : ¬Sequences.GrantsWhilePinged w.link event)
    (hNext : Sequences.step enforceSequence ⟨w.server, w.peer, [], w.toPeer⟩ (withMultipliers proc event) = some next)
    (hMulti : w.nextMulti event = some multi) (hWrites : Writes multi bodies next.toServer) :
    Answers (Sequences.step enforceSequence) Sequences.GrantsWhilePinged Follows s
      (w.after event proc next multi bodies) := by
  have hBare : Sequences.step enforceSequence { s with toServer := [] } (withMultipliers proc event) = some next := by
    rw [h.server, h.peer, h.toPeer]
    exact hNext
  have hStep := step_behind (withMultipliers_execute proc hEvent) hBare
  have hStreams := h.streams.packets event proc hWrites
  cases hConnected : w.server.connected with
  | true =>
      obtain rfl := h.link_eq hConnected
      have hFair := mt (withMultipliers_grants proc w.link event).mp hGood
      have hKept := h.kept.step hFair hStep
      obtain ⟨hTo, hLevel⟩ := (h.level hConnected).2.packets h.streams (h.kept.agrees hConnected) hGood hNext hMulti
        hWrites
      refine ⟨[withMultipliers proc event], _, run_cons hStep [], (avoids_cons hStep []).mpr ⟨hFair, avoids_nil⟩, ?_⟩
      exact ⟨rfl, rfl, rfl, hKept, hStreams, fun _ => ⟨hTo.symm, hLevel⟩⟩
  | false =>
      obtain ⟨hClosed, hPump⟩ := closed_step hConnected hNext
      have hOpen : ∀ {P : Prop}, (w.after event proc next multi bodies).server.connected = true → P := by
        intro P hAgain
        rw [show (w.after event proc next multi bodies).server.connected = false from hClosed] at hAgain
        contradiction
      by_cases hHandles : ∃ outcome, withMultipliers proc event = .pumpQueue outcome
      · obtain ⟨outcome, hOutcome⟩ := hHandles
        obtain rfl := hPump outcome hOutcome
        exact ⟨[], s, rfl, avoids_nil, h.server, h.peer, h.toPeer, h.kept, hStreams, hOpen⟩
      · have hFair : ¬Sequences.GrantsWhilePinged s (withMultipliers proc event) := by
          cases hCase : withMultipliers proc event with
          | pumpQueue outcome => exact absurd ⟨outcome, hCase⟩ hHandles
          | greet | send | request | receive | execute | pingAll => exact id
        have hKept := h.kept.step hFair hStep
        refine ⟨[withMultipliers proc event], _, run_cons hStep [], (avoids_cons hStep []).mpr ⟨hFair, avoids_nil⟩, ?_⟩
        exact ⟨rfl, rfl, rfl, hKept, hStreams, hOpen⟩

/-- Bytes arrive. -/
theorem Follows.deliver (h : Follows w s) {n : ℕ} {parser : EOClient}
    (hRecv : w.parser.step (.recv (w.network.take n)) = some parser) :
    Follows { w with parser, network := w.network.drop n } s := by
  obtain ⟨client, hClient, hNext⟩ := Option.bind_eq_some_iff.mp hRecv
  obtain rfl := Option.some.inj hNext
  obtain ⟨stream, hTracks, hStream⟩ := h.streams.tracks
  refine ⟨h.server, h.peer, h.toPeer, h.kept, ⟨h.streams.bodies, _, hTracks.arrived hClient, ?_⟩, fun hOpen => ?_⟩
  · rw [List.append_assoc, List.take_append_drop]
    exact hStream
  · obtain ⟨hTo, hLevel⟩ := h.level hOpen
    exact ⟨hTo, hLevel.synced, hLevel.sent⟩

theorem Streams.ticked (h : Streams w) : Streams { w with parser := w.parser.tick } := by
  obtain ⟨stream, hTracks, hStream⟩ := h.tracks
  exact ⟨h.bodies, stream, hTracks.ticked, hStream⟩

/-- What a tick executes is the first of what has been written. -/
theorem Streams.pending_ticked (h : Streams w) :
    w.pending = w.parser.tick.executed.drop w.parser.executed.length ++
      ({ w with parser := w.parser.tick } : Wire).pending := by
  obtain ⟨stream, hTracks, -⟩ := h.tracks
  obtain ⟨news, hNews⟩ := executed_tick hTracks.ready
  obtain ⟨rest, hRest⟩ := h.ticked.executed
  simp only [Wire.pending]
  rw [← hRest, ← hNews]
  simp

/-- The server goes through what it has received. -/
theorem Follows.tick (h : Follows w s) (enforceSequence : Bool) :
    ∃ next, step enforceSequence w .tick = some next ∧ next.parser = w.parser.tick ∧ next.network = w.network ∧
      next.sent = w.sent ∧ next.wires = w.wires ∧ next.server.connected = w.server.connected ∧
      Answers (Sequences.step enforceSequence) Sequences.GrantsWhilePinged Follows s next := by
  cases hConnected : w.server.connected with
  | false =>
      refine ⟨{ w with parser := w.parser.tick }, foldlM_closed _ hConnected, rfl, rfl, rfl, rfl, hConnected, ?_⟩
      refine ⟨[], s, rfl, avoids_nil, h.server, h.peer, h.toPeer, h.kept, h.streams.ticked, fun hAgain => ?_⟩
      rw [show w.server.connected = true from hAgain] at hConnected
      contradiction
  | true =>
      obtain ⟨hTo, hLevel⟩ := h.level hConnected
      let news := w.parser.tick.executed.drop w.parser.executed.length
      let behind := ({ w with parser := w.parser.tick } : Wire).link.toServer
      have hSplit : s.toServer = news.map (decode w.processor) ++ behind := by
        rw [hTo]
        show w.pending.map _ = _
        rw [h.streams.pending_ticked, List.map_append]
        rfl
      obtain ⟨server, hFold, hOpen, hRun, hKept⟩ := foldlM_execute enforceSequence news
        (w := { w with parser := w.parser.tick }) h.server h.kept hConnected hSplit
      refine ⟨_, hFold, rfl, rfl, rfl, rfl, hOpen, List.replicate news.length .execute, _, hRun, ?_, ?_⟩
      · refine avoids_of_forall fun event hMem s' => ?_
        rw [List.eq_of_mem_replicate hMem]
        exact id
      · refine ⟨rfl, h.peer, h.toPeer, hKept, ⟨h.streams.ticked.bodies, h.streams.ticked.tracks⟩, fun _ => ⟨rfl, ?_⟩⟩
        refine ⟨hLevel.synced, ?_⟩
        show w.sent = w.taken ++ news.map (decode w.processor) ++ behind
        rw [hLevel.sent, ← hTo, hSplit, List.append_assoc]

theorem Follows.step (h : Follows w s) {event : Event} {next : Wire} (hGood : ¬GrantsWhilePinged w event)
    (hStep : Wires.step enforceSequence w event = some next) :
    Answers (Sequences.step enforceSequence) Sequences.GrantsWhilePinged Follows s next := by
  cases event with
  | packets event bodies drawE drawD =>
      by_cases hEvent : event = .execute
      · subst hEvent
        contradiction
      · rw [Wires.step.eq_2 _ _ _ _ _ _ hEvent] at hStep
        obtain ⟨between, hNext, hRest⟩ := Option.bind_eq_some_iff.mp hStep
        obtain ⟨multi, hMulti, hRest⟩ := Option.bind_eq_some_iff.mp hRest
        obtain ⟨hWrites, hSome⟩ := Option.ite_none_right_eq_some.mp hRest
        obtain rfl := Option.some.inj hSome
        exact h.packets hEvent hGood hNext hMulti hWrites
  | deliver n =>
      obtain ⟨parser, hRecv, rfl⟩ := Option.map_eq_some_iff.mp hStep
      exact ⟨[], s, rfl, avoids_nil, h.deliver hRecv⟩
  | tick =>
      obtain ⟨next', hTick, -, -, -, -, -, hAnswers⟩ := h.tick enforceSequence
      obtain rfl := Option.some.inj (hTick.symm.trans hStep)
      exact hAnswers

theorem follows_start (k : ℕ) : Follows (.start k) .start := by
  refine ⟨rfl, rfl, rfl, Sequences.kept_start, ⟨by simp [Wire.start], [], EOClient.tracks_new k, rfl⟩, fun _ => ?_⟩
  exact ⟨rfl, .same rfl (by simp [Wire.start]), rfl⟩

/-- What the server goes through in some ticks. -/
theorem Follows.ticks (h : Follows w s) (enforceSequence : Bool) (m : ℕ) :
    ∃ next s', run (Wires.step enforceSequence) w (List.replicate m .tick) = some next ∧ Follows next s' ∧
      next.parser = EOClient.tick^[m] w.parser ∧ next.sent = w.sent ∧ next.wires = w.wires ∧
      next.server.connected = w.server.connected := by
  induction m generalizing w s with
  | zero => exact ⟨w, s, rfl, h, rfl, rfl, rfl, rfl⟩
  | succ m ih =>
      obtain ⟨between, hTick, hParser, -, hSent, hWires, hOpen, moves, t, -, -, hBetween⟩ := h.tick enforceSequence
      obtain ⟨next, s', hRun, hNext, hParser', hSent', hWires', hOpen'⟩ := ih hBetween
      refine ⟨next, s', (run_cons hTick _).trans hRun, hNext, ?_, hSent'.trans hSent, hWires'.trans hWires,
        hOpen'.trans hOpen⟩
      rw [hParser', hParser, Function.iterate_succ_apply]

/-- Once all has arrived, enough ticks take every packet that has been sent. -/
theorem Follows.taken (h : Follows w s) (enforceSequence : Bool) (hConnected : w.server.connected = true)
    (hEmpty : w.network = []) :
    ∃ n, ∀ m, n ≤ m → ∃ next, run (Wires.step enforceSequence) w (List.replicate m .tick) = some next ∧
      next.taken = w.sent := by
  obtain ⟨n, hAll⟩ := h.streams.drains hEmpty
  refine ⟨n, fun m hm => ?_⟩
  obtain ⟨next, s', hRun, hNext, hParser, hSent, hWires, hOpen⟩ := h.ticks enforceSequence m
  refine ⟨next, hRun, ?_⟩
  have hPending : next.pending = [] := by
    rw [Wire.pending, hParser, hAll m hm, hWires, List.drop_length]
  have hLevel := (hNext.level (hOpen.trans hConnected)).2.sent
  rw [Wire.link, hPending, hSent] at hLevel
  simpa using hLevel.symm

end Steps

section Runs

variable (enforceSequence : Bool) (k : ℕ)

/-- Every run on bytes is a run on packets: what is still to come from the bytes are the packets that the client
has sent. -/
theorem refines_packets {events : List Event} {w : Wire}
    (hAvoids : Avoids (step enforceSequence) GrantsWhilePinged (.start k) events)
    (hRun : run (step enforceSequence) (.start k) events = some w) :
    ∃ packets s, run (Sequences.step enforceSequence) .start packets = some s ∧
      Avoids (Sequences.step enforceSequence) Sequences.GrantsWhilePinged .start packets ∧
      s.server = w.server ∧ s.peer = w.peer ∧ s.toPeer = w.toPeer ∧
      (w.server.connected = true → s.toServer = w.pending.map (decode w.processor)) := by
  obtain ⟨packets, s, hPackets, hFair, hFollows⟩ :=
    Answers.runs (fun _ _ _ _ h hGood hStep => Follows.step h hGood hStep) (follows_start k) hAvoids hRun
  exact ⟨packets, s, hPackets, hFair, hFollows.server, hFollows.peer, hFollows.toPeer,
    fun hConnected => (hFollows.level hConnected).1⟩

/-- A client is initialized, and asks for a name. The bytes of both packets arrive in two pieces. -/
def visit : List Event :=
  [.packets (.greet [1, 2]) [[255, 255, 1, 2]] 0 0, .deliver 3, .tick, .tick, .tick, .deliver 9, .tick,
    .packets (.pumpQueue (.granted 3000000000 5 0 [1])) [] 0 2000000000, .packets .receive [] 0 0,
    .packets (.request [65, 9, 18]) [[129, 137, 130, 146, 89, 193, 133]] 0 0, .deliver 4, .tick, .tick, .deliver 9,
    .tick]

theorem visit_avoids : Avoids (step true) GrantsWhilePinged (.start 4) visit := by decide +kernel

theorem refines_packets_visit : ∃ w, run (step true) (.start 4) visit = some w ∧
    ∃ packets s, run (Sequences.step true) .start packets = some s ∧
      Avoids (Sequences.step true) Sequences.GrantsWhilePinged .start packets ∧
      s.server = w.server ∧ s.peer = w.peer ∧ s.toPeer = w.toPeer ∧
      (w.server.connected = true → s.toServer = w.pending.map (decode w.processor)) := by
  obtain ⟨w, hRun⟩ : ∃ w, run (step true) (.start 4) visit = some w :=
    Option.isSome_iff_exists.mp (by decide +kernel)
  exact ⟨w, hRun, refines_packets true 4 visit_avoids hRun⟩

/-- No packet is turned away, lost, doubled or changed, and none overtakes another: the queue has taken the first of
what was sent, and when everything has arrived it takes the rest. -/
theorem nothing_lost {events : List Event}
    (hAvoids : Avoids (step enforceSequence) GrantsWhilePinged (.start k) events) :
    Always (step enforceSequence) (fun w => w.server.rejected = false ∧
      (w.server.connected = true → w.taken <+: w.sent ∧
        (w.network = [] → ∃ n, ∀ m, n ≤ m → ∃ next,
          run (step enforceSequence) w (List.replicate m .tick) = some next ∧ next.taken = w.sent)))
      (.start k) events := by
  intro done w hDone hRun
  have hBefore : Avoids (step enforceSequence) GrantsWhilePinged (.start k) done :=
    fun earlier event s' hEarlier => hAvoids earlier event s' (hEarlier.trans hDone)
  obtain ⟨-, s, -, -, hFollows⟩ :=
    Answers.runs (fun _ _ _ _ h hGood hStep => Follows.step h hGood hStep) (follows_start k) hBefore hRun
  refine ⟨hFollows.server ▸ hFollows.kept.fine, fun hConnected => ⟨?_, hFollows.taken enforceSequence hConnected⟩⟩
  rw [(hFollows.level hConnected).2.sent]
  exact List.prefix_append ..

theorem nothing_lost_visit :
    Always (step true) (fun w => w.server.rejected = false ∧
      (w.server.connected = true → w.taken <+: w.sent ∧
        (w.network = [] → ∃ n, ∀ m, n ≤ m → ∃ next,
          run (step true) w (List.replicate m .tick) = some next ∧ next.taken = w.sent)))
      (.start 4) visit ∧
    (run (step true) (.start 4) visit).map (·.taken) = some [[255, 255, 1, 2], [1, 2, 217, 5, 65, 9, 18]] :=
  ⟨nothing_lost true 4 visit_avoids, by decide +kernel⟩

end Runs

end Etheos.Wires
