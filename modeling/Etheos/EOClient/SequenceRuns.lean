import Etheos.EOClient.SequenceChecks

/-! No client that keeps to the numbers is turned away, as long as no start is told to it while it has a ping
to answer. -/
namespace Etheos.Sequences

open General PacketProcessor
open ActionQueues (ClientState)
open ChestSpawns (rand)

section Agreement

/-- The server answers these packets, and the client waits for it. -/
def asks (data : Bytes) : Bool := isInit (.new data) || isRequest (.new data)

def Message.answers : Message → Bool
  | .ping _ => false
  | _ => true

namespace Link

variable (s : Link)

/-- The numbers when all that is on its way to the server has come there. -/
def final : Sequence := s.toServer.foldl Sequence.after s.server.sequence

/-- What the server has still to handle. -/
def unhandled : List Bytes := s.server.queue.map (·.data) ++ s.toServer

/-- The messages that carry a start. -/
def starts : List Message := s.toPeer.filter (· ≠ .refused)

/-- The client counts from where the server will be, or the start to count from is on its way. -/
inductive Phase : Prop
  | level (hSame : s.final.seqStart = s.peer.start)
      (hPings : ∀ ping ∈ s.starts, ping.Pings s.server.sequence.upcomingSeqStart)
  | granted {answer : Message} {pings : List Message} (hStarts : s.starts = answer :: pings)
      (hAnswer : answer.Grants s.server.sequence.seqStart)
      (hPings : ∀ ping ∈ pings, ping.Pings s.server.sequence.upcomingSeqStart) (hEmpty : s.toServer = [])

/-- The two sides agree on the numbers, at most one ping is open, and so is at most one question. -/
structure Agrees : Prop where
  accepts : Accepts s.server.sequence s.toServer
  seq : s.final.seq = s.peer.count
  count : 0 ≤ s.peer.count ∧ s.peer.count < 10
  start : 0 ≤ s.final.seqStart ∧ s.final.seqStart ≤ 1757
  upcoming : s.server.needpong = true →
    0 ≤ s.server.sequence.upcomingSeqStart ∧ s.server.sequence.upcomingSeqStart ≤ 1757
  pings : s.unhandled.countP (isPing <| .new ·) + s.toPeer.countP Message.isPing ≤ if s.server.needpong then 1 else 0
  asked : s.unhandled.countP asks + s.toPeer.countP Message.answers ≤ if s.peer.waiting then 1 else 0
  greeted : s.peer.greeted = false → s.peer.waiting = false
  /-- Behind a question there are only answers to pings. -/
  behind : s.unhandled.Pairwise fun data later => asks data = true → isPing (.new later) = true
  phase : s.Phase

end Link

variable {enforceSequence : Bool} {s : Link}

theorem foldl_upcoming (packets : List Bytes) (s : Sequence) :
    (packets.foldl Sequence.after s).upcomingSeqStart = s.upcomingSeqStart := by
  induction packets generalizing s with
  | nil => rfl
  | cons data packets ih => rw [List.foldl_cons, ih, after_upcoming]

theorem Link.final_upcoming (s : Link) : s.final.upcomingSeqStart = s.server.sequence.upcomingSeqStart :=
  foldl_upcoming s.toServer s.server.sequence

theorem Link.unhandled_append (s : Link) (data : Bytes) (p : Peer) (toPeer : List Message) :
    ({ s with peer := p, toServer := s.toServer ++ [data], toPeer } : Link).unhandled = s.unhandled ++ [data] := by
  simp [Link.unhandled]

theorem Link.final_append (s : Link) (data : Bytes) (p : Peer) (toPeer : List Message) :
    ({ s with peer := p, toServer := s.toServer ++ [data], toPeer } : Link).final = s.final.after data := by
  simp [Link.final]

/-- Nobody waits, and so nothing is asked and nothing answered. -/
theorem Link.Agrees.not_waiting (h : s.Agrees) (hWaiting : s.peer.waiting = false) :
    (∀ data ∈ s.unhandled, asks data = false) ∧ ∀ message ∈ s.toPeer, message.answers = false := by
  have hNone := h.asked
  rw [hWaiting, if_neg (by decide)] at hNone
  constructor
  · intro data hMem
    have hZero : s.unhandled.countP asks = 0 := by omega
    simpa using List.countP_eq_zero.mp hZero data hMem
  · intro message hMem
    have hZero : s.toPeer.countP Message.answers = 0 := by omega
    simpa using List.countP_eq_zero.mp hZero message hMem

theorem Message.Grants.answers {start : Int} {message : Message} (h : message.Grants start) :
    message.answers = true := by
  cases message <;> first | rfl | exact h.elim

theorem Message.Pings.isPing {start : Int} {message : Message} (h : message.Pings start) : message.isPing = true := by
  cases message <;> first | rfl | exact h.elim

theorem Link.mem_starts {message : Message} (h : message ∈ s.starts) : message ∈ s.toPeer :=
  (List.mem_filter.mp h).1

theorem Link.Agrees.level (h : s.Agrees) (hWaiting : s.peer.waiting = false) :
    s.final.seqStart = s.peer.start ∧ ∀ ping ∈ s.starts, ping.Pings s.server.sequence.upcomingSeqStart := by
  cases h.phase with
  | level hSame hPings => exact ⟨hSame, hPings⟩
  | granted hStarts hAnswer _ _ =>
      have hNone := (h.not_waiting hWaiting).2 _ (mem_starts (hStarts ▸ List.mem_cons_self ..))
      rw [hAnswer.answers] at hNone
      contradiction

/-- The client sends a packet that is no answer to a ping. -/
theorem Link.Agrees.send (h : s.Agrees) (hWaiting : s.peer.waiting = false) {data : Bytes}
    (hAccepted : Accepted s.final data) (hPing : isPing (.new data) = false) (greeted waiting : Bool)
    (hGreeted : greeted = false → waiting = false) (hAsks : asks data = true → waiting = true) :
    ({ s with
      peer := { s.peer.counted with greeted, waiting }
      toServer := s.toServer ++ [data] } : Link).Agrees := by
  obtain ⟨hNotAsked, hNotAnswered⟩ := h.not_waiting hWaiting
  have hFinal := s.final_append data { s.peer.counted with greeted, waiting } s.toPeer
  have hUnhandled := s.unhandled_append data { s.peer.counted with greeted, waiting } s.toPeer
  have hAfter := after_of_not_ping (s := s.final) hPing
  obtain ⟨hSame, hPings⟩ := h.level hWaiting
  have hCount := h.count
  refine ⟨(accepts_append ..).mpr ⟨h.accepts, hAccepted⟩, ?_, ?_, ?_, h.upcoming, ?_, ?_, hGreeted, ?_, ?_⟩
  · rw [hFinal, after_seq, h.seq]
    rfl
  · show 0 ≤ (s.peer.count + 1) % 10 ∧ (s.peer.count + 1) % 10 < 10
    omega
  · rw [hFinal, hAfter]
    exact h.start
  · rw [hUnhandled, List.countP_append, List.countP_singleton, if_neg (by simp [hPing])]
    exact h.pings
  · have hNone : s.unhandled.countP asks = 0 := List.countP_eq_zero.mpr (by simpa using hNotAsked)
    have hNoAnswer : s.toPeer.countP Message.answers = 0 := List.countP_eq_zero.mpr (by simpa using hNotAnswered)
    rw [hUnhandled, List.countP_append, List.countP_singleton, hNone, hNoAnswer]
    cases hAsk : asks data with
    | false => simp
    | true => simp [hAsks hAsk]
  · rw [hUnhandled, List.pairwise_append]
    refine ⟨h.behind, List.pairwise_singleton .., fun earlier hMem later _ hAsk => ?_⟩
    rw [hNotAsked earlier hMem] at hAsk
    contradiction
  · refine .level ?_ hPings
    rw [hFinal, hAfter]
    exact hSame

/-- A packet comes to the server, and is let through. -/
theorem Link.Agrees.execute (h : s.Agrees) (enforceSequence : Bool) {data : Bytes} {toServer : List Bytes}
    (hTo : s.toServer = data :: toServer) (hConnected : s.server.connected = true) :
    ∃ server, s.server.execute enforceSequence data = .ok server ∧ server.rejected = s.server.rejected ∧
      ({ s with server, toServer } : Link).Agrees := by
  obtain ⟨hAccepted, hRest⟩ : Accepted s.server.sequence data ∧ Accepts (s.server.sequence.after data) toServer := by
    have hAll := h.accepts
    rwa [hTo] at hAll
  obtain ⟨pos, hCheck⟩ := hAccepted.check enforceSequence
  let server : Server :=
    { s.server with
      sequence := s.server.sequence.after data
      queue := s.server.queue ++ [⟨data, pos⟩] }
  have hExecute : s.server.execute enforceSequence data = .ok server := by
    rw [Server.execute, if_neg (not_or.mpr ⟨Nat.not_lt.mpr hAccepted.long, by simp [hConnected]⟩),
      if_neg hAccepted.family]
    simp only [hCheck, Bind.bind, Except.bind, if_true]
    rfl
  have hFinal : ({ s with server, toServer } : Link).final = s.final := by
    simp only [Link.final, hTo, List.foldl_cons]
    rfl
  have hUnhandled : ({ s with server, toServer } : Link).unhandled = s.unhandled := by
    simp [Link.unhandled, hTo, server]
  have hUpcoming : server.sequence.upcomingSeqStart = s.server.sequence.upcomingSeqStart := after_upcoming ..
  refine ⟨server, hExecute, rfl, hRest, ?_, h.count, ?_, ?_, ?_, ?_, h.greeted, ?_, ?_⟩
  · rw [hFinal]
    exact h.seq
  · rw [hFinal]
    exact h.start
  · rw [hUpcoming]
    exact h.upcoming
  · rw [hUnhandled]
    exact h.pings
  · rw [hUnhandled]
    exact h.asked
  · rw [hUnhandled]
    exact h.behind
  · cases h.phase with
    | level hSame hPings =>
        refine .level (by rw [hFinal]; exact hSame) fun ping hMem => ?_
        rw [hUpcoming]
        exact hPings ping hMem
    | granted _ _ _ hEmpty =>
        rw [hTo] at hEmpty
        contradiction

/-- The answer that the client has waited for is the only one. -/
theorem Link.Agrees.answered (h : s.Agrees) {message : Message} {toPeer : List Message}
    (hTo : s.toPeer = message :: toPeer) (hAnswers : message.answers = true) :
    s.unhandled.countP asks + toPeer.countP Message.answers = 0 := by
  have hAsked := h.asked
  rw [hTo, List.countP_cons_of_pos hAnswers] at hAsked
  split at hAsked <;> omega

/-- The client takes the start that it has waited for, and then counts from where the server is. -/
theorem Link.Agrees.grant (h : s.Agrees) {message : Message} {toPeer : List Message}
    (hTo : s.toPeer = message :: toPeer) (hAnswers : message.answers = true) (hStart : message ≠ .refused) :
    message.Grants s.server.sequence.seqStart ∧ ({ s with
      peer := { s.peer with start := s.server.sequence.seqStart, waiting := false }
      toPeer } : Link).Agrees := by
  have hNone := h.answered hTo hAnswers
  have hPing : message.isPing = false := by
    cases message <;> first | rfl | contradiction
  have hCount := h.pings
  rw [hTo, List.countP_cons_of_neg (by simp [hPing])] at hCount
  have hStarts : s.starts = message :: toPeer.filter (· ≠ .refused) := by
    rw [Link.starts, hTo, List.filter_cons_of_pos (by simpa using hStart)]
  cases h.phase with
  | level _ hPings =>
      have hBad := (hPings message (hStarts ▸ List.mem_cons_self ..)).isPing
      rw [hPing] at hBad
      contradiction
  | granted hGranted hAnswer hPings hEmpty =>
      obtain ⟨rfl, hRest⟩ := List.cons.inj (hGranted.symm.trans hStarts)
      refine ⟨hAnswer, h.accepts, h.seq, h.count, h.start, h.upcoming, hCount, hNone.le, fun _ => rfl, h.behind, ?_⟩
      subst hRest
      exact .level (by simp [Link.final, hEmpty]) hPings

/-- The client answers a ping, and then counts from where the server will be. -/
theorem Link.Agrees.pong (h : s.Agrees) {payload : Bytes} {toPeer : List Message}
    (hTo : s.toPeer = .ping payload :: toPeer) :
    Message.Pings s.server.sequence.upcomingSeqStart (.ping payload) ∧
      ∀ p : Peer, p = { s.peer with start := s.server.sequence.upcomingSeqStart } →
        ({ s with
          peer := p.counted
          toServer := s.toServer ++ [p.packet packetConnection packetPing [107]]
          toPeer } : Link).Agrees := by
  have hCount := h.pings
  rw [hTo, List.countP_cons_of_pos rfl] at hCount
  have hNeed : s.server.needpong = true := by
    by_contra hNot
    rw [if_neg hNot] at hCount
    omega
  have hStarts : s.starts = .ping payload :: toPeer.filter (· ≠ .refused) := by
    rw [Link.starts, hTo, List.filter_cons_of_pos (by simp)]
  cases h.phase with
  | granted hGranted hAnswer _ _ =>
      obtain ⟨rfl, -⟩ := List.cons.inj (hGranted.symm.trans hStarts)
      exact hAnswer.elim
  | level hSame hPings =>
      refine ⟨hPings _ (hStarts ▸ List.mem_cons_self ..), ?_⟩
      intro p hp
      have hPing : isPing (.new (p.packet packetConnection packetPing [107])) = true := by simp [isPing_packet]
      have hAsks : asks (p.packet packetConnection packetPing [107]) = false := by
        simp [asks, isInit, isRequest, Peer.packet, family_new, action_new, packetConnection, packetFInit,
          packetAccount]
      have hAccepted : Accepted s.final (p.packet packetConnection packetPing [107]) :=
        accepted_packet packetPing [107] (by decide) (hp ▸ h.upcoming hNeed) (hp ▸ h.count) (hp ▸ h.seq)
          (by simp [s.final_upcoming, hp])
      have hFinal := s.final_append (p.packet packetConnection packetPing [107]) p.counted toPeer
      have hUnhandled := s.unhandled_append (p.packet packetConnection packetPing [107]) p.counted toPeer
      have hAfter := after_ping (s := s.final) hPing
      have hSeq : (s.peer.count + 1) % 10 = p.counted.count := by rw [hp]; rfl
      have hAsked := h.asked
      rw [hTo, List.countP_cons_of_neg (by simp [Message.answers])] at hAsked
      refine ⟨(accepts_append ..).mpr ⟨h.accepts, hAccepted⟩, ?_, ?_, ?_, h.upcoming, ?_, ?_, hp ▸ h.greeted, ?_, ?_⟩
      · rw [hFinal, after_seq, h.seq]
        exact hSeq
      · show 0 ≤ p.counted.count ∧ p.counted.count < 10
        omega
      · rw [hFinal, hAfter, s.final_upcoming]
        exact h.upcoming hNeed
      · rw [hUnhandled, List.countP_append, List.countP_singleton, if_pos hPing]
        show _ + toPeer.countP Message.isPing ≤ if s.server.needpong then 1 else 0
        omega
      · rw [hUnhandled, List.countP_append, List.countP_singleton, if_neg (by simp [hAsks])]
        exact hp ▸ hAsked
      · rw [hUnhandled, List.pairwise_append]
        refine ⟨h.behind, List.pairwise_singleton .., fun _ _ later hLater _ => ?_⟩
        rw [List.mem_singleton.mp hLater]
        exact hPing
      · refine .level ?_ fun ping hMem => hPings ping (hStarts ▸ List.mem_cons_of_mem _ hMem)
        rw [hFinal, hAfter, s.final_upcoming, hp]
        rfl

/-- A message comes to the client. -/
theorem Link.Agrees.receive (h : s.Agrees) {message : Message} {toPeer : List Message}
    (hTo : s.toPeer = message :: toPeer) :
    ∃ r, s.peer.receive message = .ok r ∧
      ({ s with peer := r.1, toServer := s.toServer ++ r.2, toPeer } : Link).Agrees := by
  cases message with
  | refused =>
      have hNone := h.answered hTo rfl
      have hCount := h.pings
      rw [hTo, List.countP_cons_of_neg (by decide)] at hCount
      have hStarts : s.starts = toPeer.filter (· ≠ .refused) := by
        rw [Link.starts, hTo]
        rfl
      refine ⟨_, rfl, ?_⟩
      rw [List.append_nil]
      refine ⟨h.accepts, h.seq, h.count, h.start, h.upcoming, hCount, hNone.le, fun _ => rfl, h.behind, ?_⟩
      cases h.phase with
      | level hSame hPings => exact .level hSame (by rwa [hStarts] at hPings)
      | granted hGranted hAnswer hPings hEmpty => exact .granted (hStarts.symm.trans hGranted) hAnswer hPings hEmpty
  | ping payload =>
      obtain ⟨hRead, hPong⟩ := h.pong hTo
      let p : Peer := { s.peer with start := s.server.sequence.upcomingSeqStart }
      refine ⟨(p.counted, [p.packet packetConnection packetPing [107]]), ?_, hPong p rfl⟩
      simp only [Peer.receive, show Peer.readPing payload = .ok s.server.sequence.upcomingSeqStart from hRead]
      rfl
  | init payload =>
      obtain ⟨hRead, hGrant⟩ := h.grant hTo rfl (by simp)
      refine ⟨({ s.peer with start := s.server.sequence.seqStart, waiting := false }, []), ?_, ?_⟩
      · simp only [Peer.receive, show Peer.readInit payload = .ok s.server.sequence.seqStart from hRead]
        rfl
      · rw [List.append_nil]
        exact hGrant
  | approved payload =>
      obtain ⟨hRead, hGrant⟩ := h.grant hTo rfl (by simp)
      refine ⟨({ s.peer with start := s.server.sequence.seqStart, waiting := false }, []), ?_, ?_⟩
      · simp only [Peer.receive, show Peer.readApproved payload = .ok s.server.sequence.seqStart from hRead]
        rfl
      · rw [List.append_nil]
        exact hGrant

/-- A ping goes out. -/
theorem Link.Agrees.pingAll (h : s.Agrees) (hNeed : s.server.needpong = false) (draw draw' : UInt32) :
    ({ s with
      server := (s.server.pingAll draw draw').1
      toPeer := s.toPeer ++ (s.server.pingAll draw draw').2 } : Link).Agrees := by
  have hCount := h.pings
  rw [hNeed, if_neg (by decide)] at hCount
  have hNoPing : ∀ data ∈ s.unhandled, isPing (.new data) = false := by
    have hZero : s.unhandled.countP (isPing <| .new ·) = 0 := by omega
    simpa using List.countP_eq_zero.mp hZero
  have hNoMessage : ∀ message ∈ s.toPeer, message.isPing = false := by
    have hZero : s.toPeer.countP Message.isPing = 0 := by omega
    simpa using List.countP_eq_zero.mp hZero
  have hNotSent : ∀ data ∈ s.toServer, isPing (.new data) = false :=
    fun data hMem => hNoPing data (List.mem_append_right _ hMem)
  have hNever : ∀ {start : Int}, ∀ message ∈ s.starts, ¬message.Pings start := fun message hMem hPings => by
    have hNone := hNoMessage message (mem_starts hMem)
    rw [hPings.isPing] at hNone
    contradiction
  have hRange := rand_range draw 0 1757 (by decide) (by decide)
  rw [show s.server.pingAll draw draw' =
    ({ s.server with sequence := s.server.sequence.announce (rand draw 0 1757), needpong := true },
      [pingPacket (s.server.sequence.announce (rand draw 0 1757)) draw']) from if_neg (by simp [hNeed])]
  have hPings : (pingPacket (s.server.sequence.announce (rand draw 0 1757)) draw').Pings (rand draw 0 1757) :=
    pingPacket_pings draw' hRange.1 hRange.2
  have hFinal : s.toServer.foldl Sequence.after (s.server.sequence.announce (rand draw 0 1757)) =
      s.final.announce (rand draw 0 1757) := foldl_announce (rand draw 0 1757) hNotSent s.server.sequence
  have hStarts :
      (s.toPeer ++ [pingPacket (s.server.sequence.announce (rand draw 0 1757)) draw']).filter (· ≠ .refused) =
      s.starts ++ [pingPacket (s.server.sequence.announce (rand draw 0 1757)) draw'] := by
    rw [List.filter_append]
    rfl
  refine ⟨accepts_announce _ hNotSent h.accepts, ?_, h.count, ?_, fun _ => hRange, ?_, ?_, h.greeted, h.behind, ?_⟩
  · show (s.toServer.foldl Sequence.after _).seq = _
    rw [hFinal]
    exact h.seq
  · show 0 ≤ (s.toServer.foldl Sequence.after _).seqStart ∧ (s.toServer.foldl Sequence.after _).seqStart ≤ 1757
    rw [hFinal]
    exact h.start
  · show s.unhandled.countP (isPing <| .new ·) + (s.toPeer ++ [_]).countP Message.isPing ≤ 1
    rw [List.countP_append]
    simp only [List.countP_singleton]
    split <;> omega
  · show s.unhandled.countP asks + (s.toPeer ++ [_]).countP Message.answers ≤ _
    rw [List.countP_append, List.countP_singleton, if_neg (by simp [pingPacket, Message.answers])]
    exact h.asked
  · cases h.phase with
    | level hSame hOld =>
        refine .level ?_ fun ping hMem => ?_
        · show (s.toServer.foldl Sequence.after _).seqStart = _
          rw [hFinal]
          exact hSame
        · obtain hMem | hMem := List.mem_append.mp ((congrArg (ping ∈ ·) hStarts).mp hMem)
          · exact absurd (hOld ping hMem) (hNever ping hMem)
          · rw [List.mem_singleton.mp hMem]
            exact hPings
    | @granted answer pings hGranted hAnswer hOld hEmpty =>
        have hMore := (hStarts.trans (congrArg (· ++ _) hGranted)).trans (List.cons_append ..)
        refine .granted hMore hAnswer (fun ping hMem => ?_) hEmpty
        obtain hMem | hMem := List.mem_append.mp hMem
        · exact absurd (hOld ping hMem) (hNever ping (hGranted ▸ List.mem_cons_of_mem _ hMem))
        · rw [List.mem_singleton.mp hMem]
          exact hPings

theorem Link.unhandled_pop {reader : PacketReader} {queue : List PacketReader}
    (hQueue : s.server.queue = reader :: queue) :
    s.unhandled = reader.data :: (queue.map (·.data) ++ s.toServer) := by
  simp [Link.unhandled, hQueue]

/-- A packet is taken from the queue, and what becomes of it does not matter to the numbers. -/
theorem Link.Agrees.pop (h : s.Agrees) {reader : PacketReader} {queue : List PacketReader}
    (hQueue : s.server.queue = reader :: queue) (state : ClientState) :
    ({ s with server := { s.server with queue, state } } : Link).Agrees := by
  have hUnhandled := unhandled_pop hQueue
  have hPings := h.pings
  have hAsked := h.asked
  have hBehind := h.behind
  rw [hUnhandled, List.countP_cons] at hPings hAsked
  rw [hUnhandled, List.pairwise_cons] at hBehind
  refine ⟨h.accepts, h.seq, h.count, h.start, h.upcoming, ?_, ?_, h.greeted, hBehind.2, ?_⟩
  · show (queue.map (·.data) ++ s.toServer).countP _ + s.toPeer.countP _ ≤ if s.server.needpong then 1 else 0
    omega
  · show (queue.map (·.data) ++ s.toServer).countP _ + s.toPeer.countP _ ≤ if s.peer.waiting then 1 else 0
    omega
  · cases h.phase with
    | level hSame hPings => exact .level hSame hPings
    | granted hStarts hAnswer hPings hEmpty => exact .granted hStarts hAnswer hPings hEmpty

theorem isPing_data (reader : PacketReader) : isPing (.new reader.data) = isPing reader := rfl

/-- The answer to the ping has been handled. -/
theorem Link.Agrees.ponged (h : s.Agrees) {reader : PacketReader} {queue : List PacketReader}
    (hQueue : s.server.queue = reader :: queue) (hPing : isPing reader = true) :
    ({ s with server := { s.server with queue, needpong := false } } : Link).Agrees := by
  have hPop := h.pop hQueue s.server.state
  have hPings := h.pings
  rw [unhandled_pop hQueue, List.countP_cons_of_pos (by exact hPing)] at hPings
  refine ⟨hPop.accepts, hPop.seq, hPop.count, hPop.start, fun hNeed => by contradiction, ?_, hPop.asked,
    hPop.greeted, hPop.behind, ?_⟩
  · show (queue.map (·.data) ++ s.toServer).countP _ + s.toPeer.countP Message.isPing ≤ 0
    split at hPings <;> omega
  · cases hPop.phase with
    | level hSame hPings => exact .level hSame hPings
    | granted hStarts hAnswer hPings hEmpty => exact .granted hStarts hAnswer hPings hEmpty

/-- While the server has a question to answer, the client has been told nothing. -/
theorem Link.Agrees.open_question (h : s.Agrees) {reader : PacketReader} {queue : List PacketReader}
    (hQueue : s.server.queue = reader :: queue) (hAsks : asks reader.data = true) :
    s.peer.waiting = true ∧ (queue.map (·.data) ++ s.toServer).countP asks = 0 ∧
      s.toPeer.countP Message.answers = 0 ∧ ∀ data ∈ s.toServer, isPing (.new data) = true := by
  have hAsked := h.asked
  have hBehind := h.behind
  rw [unhandled_pop hQueue, List.countP_cons_of_pos hAsks] at hAsked
  rw [unhandled_pop hQueue, List.pairwise_cons] at hBehind
  have hWaiting : s.peer.waiting = true := by
    by_contra hNot
    rw [if_neg hNot] at hAsked
    omega
  rw [if_pos hWaiting] at hAsked
  exact ⟨hWaiting, by omega, by omega, fun data hMem => hBehind.1 data (List.mem_append_right _ hMem) hAsks⟩

theorem Message.isPing_or_answers (message : Message) : message.isPing = true ∨ message.answers = true := by
  cases message <;> simp [Message.isPing, Message.answers]

/-- A client that waits for an answer and has no ping to answer sends nothing. -/
theorem Link.Agrees.quiet (h : s.Agrees) {reader : PacketReader} {queue : List PacketReader}
    (hQueue : s.server.queue = reader :: queue) (hAsks : asks reader.data = true) (hPinged : s.pinged = false) :
    s.toServer = [] ∧ s.toPeer = [] := by
  obtain ⟨-, -, hNotAnswered, hPongs⟩ := h.open_question hQueue hAsks
  obtain ⟨hNoMessage, hNoPong⟩ : s.toPeer.any Message.isPing = false ∧ s.toServer.any (isPing <| .new ·) = false :=
    Bool.or_eq_false_iff.mp hPinged
  constructor
  · refine List.eq_nil_iff_forall_not_mem.mpr fun data hMem => ?_
    exact (List.any_eq_false.mp hNoPong data hMem) (hPongs data hMem)
  · refine List.eq_nil_iff_forall_not_mem.mpr fun message hMem => ?_
    obtain hPing | hAnswers := message.isPing_or_answers
    · exact List.any_eq_false.mp hNoMessage message hMem hPing
    · exact List.countP_eq_zero.mp hNotAnswered message hMem hAnswers

/-- A start is told to a client that has no ping to answer. -/
theorem Link.Agrees.tell (h : s.Agrees) {reader : PacketReader} {queue : List PacketReader}
    (hQueue : s.server.queue = reader :: queue) (hAsks : asks reader.data = true) (hPinged : s.pinged = false)
    {start : Int} (hRange : 0 ≤ start ∧ start ≤ 1757) {message : Message} (hGrants : message.Grants start)
    (state : ClientState) :
    ({ s with
      server := { s.server with queue, state, sequence := { s.server.sequence with seqStart := start } }
      toPeer := s.toPeer ++ [message] } : Link).Agrees := by
  obtain ⟨hWaiting, hNotAsked, -, -⟩ := h.open_question hQueue hAsks
  obtain ⟨hToServer, hToPeer⟩ := h.quiet hQueue hAsks hPinged
  have hPop := h.pop hQueue state
  have hSeq : s.server.sequence.seq = s.peer.count := by
    have hFinal := h.seq
    rwa [Link.final, hToServer] at hFinal
  have hAnswers : message.answers = true := hGrants.answers
  have hNotPing : message.isPing = false := by
    cases message <;> first | rfl | exact hGrants.elim
  have hStarts : message ≠ .refused := by
    rintro rfl
    exact hGrants.elim
  have hPings := hPop.pings
  have hBehind := hPop.behind
  simp only [hToServer, hToPeer, List.nil_append, Link.unhandled] at hPings hBehind ⊢
  refine ⟨trivial, hSeq, h.count, hRange, h.upcoming, ?_, ?_, h.greeted, hBehind, ?_⟩
  · simp only [Link.unhandled, List.countP_singleton, hNotPing]
    exact hPings
  · rw [hToServer] at hNotAsked
    show (queue.map PacketReader.data ++ []).countP asks + _ ≤ if s.peer.waiting then 1 else 0
    rw [hNotAsked, hWaiting, List.countP_singleton, hAnswers]
    decide
  · refine @Link.Phase.granted _ message [] ?_ hGrants (by simp) rfl
    simp [Link.starts, hStarts]

/-- A name is refused. -/
theorem Link.Agrees.refuse (h : s.Agrees) {reader : PacketReader} {queue : List PacketReader}
    (hQueue : s.server.queue = reader :: queue) (hAsks : asks reader.data = true) :
    ({ s with
      server := { s.server with queue }
      toPeer := s.toPeer ++ [.refused] } : Link).Agrees := by
  obtain ⟨hWaiting, hNotAsked, hNotAnswered, hPongs⟩ := h.open_question hQueue hAsks
  have hPop := h.pop hQueue s.server.state
  have hPings := hPop.pings
  have hStarts : (s.toPeer ++ [Message.refused]).filter (· ≠ .refused) = s.starts := by
    rw [List.filter_append]
    exact List.append_nil _
  refine ⟨h.accepts, h.seq, h.count, h.start, h.upcoming, ?_, ?_, h.greeted, hPop.behind, ?_⟩
  · rw [List.countP_append, List.countP_singleton, if_neg (by decide)]
    exact hPings
  · show (queue.map (·.data) ++ s.toServer).countP asks + (s.toPeer ++ [Message.refused]).countP Message.answers ≤
      if s.peer.waiting then 1 else 0
    rw [hNotAsked, List.countP_append, hNotAnswered, hWaiting]
    decide
  · cases h.phase with
    | level hSame hPings => exact .level hSame fun ping hMem => hPings ping ((congrArg (ping ∈ ·) hStarts).mp hMem)
    | granted hGranted hAnswer hPings hEmpty => exact .granted (hStarts.trans hGranted) hAnswer hPings hEmpty

/-- What is left of the agreement when the connection may have been closed. -/
structure Link.Kept (s : Link) : Prop where
  fine : s.server.rejected = false
  agrees : s.server.connected = true → s.Agrees

theorem Link.Agrees.kept (h : s.Agrees) (hFine : s.server.rejected = false) : s.Kept := ⟨hFine, fun _ => h⟩

theorem Link.kept_of_closed (hFine : s.server.rejected = false) (hClosed : s.server.connected = false) : s.Kept :=
  ⟨hFine, fun h => absurd h (by simp [hClosed])⟩

/-- A handler is called for the packet that has been taken from the queue. -/
theorem Link.Agrees.handle (h : s.Agrees) (hFine : s.server.rejected = false) {reader : PacketReader}
    {queue : List PacketReader} (hQueue : s.server.queue = reader :: queue) {outcome : Outcome}
    (hGood : ¬GrantsWhilePinged s (.pumpQueue outcome)) {r : Server × List Message}
    (hHandle : Server.handle { s.server with queue } reader outcome = some r) :
    ({ s with server := r.1, toPeer := s.toPeer ++ r.2 } : Link).Kept := by
  have hStays : ∀ state, ({ s with
      server := { s.server with queue, state }, toPeer := s.toPeer ++ [] } : Link).Kept := by
    intro state
    rw [List.append_nil]
    exact (h.pop hQueue state).kept hFine
  have hCloses : ({ s with
      server := Server.close { s.server with queue }, toPeer := s.toPeer ++ [] } : Link).Kept :=
    kept_of_closed hFine rfl
  unfold Server.handle at hHandle
  by_cases hInit : isInit reader = true
  · have hAsks : asks reader.data = true := Bool.or_eq_true_iff.mpr (.inl hInit)
    rw [if_pos hInit] at hHandle
    split at hHandle
    · cases outcome with
      | closed =>
          obtain rfl := Option.some.inj hHandle
          exact hCloses
      | granted draw draw' createId rest =>
          obtain rfl := Option.some.inj hHandle
          have hRange := rand_range draw 0 1757 (by decide) (by decide)
          have hReply := initReply_grants (s := s.server.sequence.initNewSequence draw) draw' rest hRange.1 hRange.2
          exact (h.tell hQueue hAsks (Bool.not_eq_true _ ▸ hGood) hRange hReply .initialized).kept hFine
      | refused => contradiction
      | other state => contradiction
    · obtain rfl := Option.some.inj hHandle
      exact hStays s.server.state
  rw [if_neg hInit] at hHandle
  by_cases hPing : isPing reader = true
  · rw [if_pos hPing] at hHandle
    obtain ⟨server, hConnection, rfl⟩ := Option.map_eq_some_iff.mp hHandle
    unfold Server.connectionPing at hConnection
    cases hRead : reader.getEndString with
    | error fault => simp [hRead, Bind.bind, Except.bind, Except.toOption] at hConnection
    | ok read =>
        simp only [hRead, Bind.bind, Except.bind, Pure.pure, Except.pure, Except.toOption, Option.some.injEq]
          at hConnection
        split at hConnection
        · obtain rfl := hConnection
          exact hCloses
        · obtain rfl := hConnection
          rw [List.append_nil]
          exact (h.ponged hQueue hPing).kept hFine
  rw [if_neg hPing] at hHandle
  by_cases hRequest : isRequest reader = true
  · have hAsks : asks reader.data = true := Bool.or_eq_true_iff.mpr (.inr hRequest)
    rw [if_pos hRequest] at hHandle
    split at hHandle
    · cases outcome with
      | closed => contradiction
      | granted draw draw' createId rest =>
          obtain rfl := Option.some.inj hHandle
          have hPinged : s.pinged = false := Bool.not_eq_true _ ▸ hGood
          have hNonneg : 0 ≤ s.server.sequence.seqStart := by
            have hStart := h.start.1
            rwa [Link.final, (h.quiet hQueue hAsks hPinged).1] at hStart
          have hTell : ∀ start : Int, 0 ≤ start → start ≤ 240 →
              ({ s with
                server := { s.server with queue, sequence := { s.server.sequence with seqStart := start } }
                toPeer :=
                  s.toPeer ++ [accountReply { s.server.sequence with seqStart := start } createId] } : Link).Kept := by
            intro start hLo hHi
            have hReply := accountReply_grants (s := { s.server.sequence with seqStart := start }) createId hLo hHi
            exact (h.tell hQueue hAsks hPinged ⟨hLo, by omega⟩ hReply s.server.state).kept hFine
          by_cases hHigh : s.server.sequence.seqStart > 240
          · have hRange := rand_range draw 0 240 (by decide) (by decide)
            simp only [if_pos hHigh]
            exact hTell _ hRange.1 hRange.2
          · simp only [if_neg hHigh]
            exact hTell s.server.sequence.seqStart hNonneg (by omega)
      | refused =>
          obtain rfl := Option.some.inj hHandle
          exact (h.refuse hQueue hAsks).kept hFine
      | other state => contradiction
    · obtain rfl := Option.some.inj hHandle
      exact hStays s.server.state
  rw [if_neg hRequest] at hHandle
  cases outcome with
  | closed =>
      obtain rfl := Option.some.inj hHandle
      exact hCloses
  | granted draw draw' createId rest => contradiction
  | refused => contradiction
  | other state =>
      obtain rfl := Option.some.inj hHandle
      exact hStays state

theorem isPing_of_other {family action : UInt8} (p : Peer) (rest : Bytes)
    (h : ¬(family = packetConnection ∧ action = packetPing)) :
    isPing (.new (p.packet family action rest)) = false := by
  rw [isPing_packet]
  exact decide_eq_false h

theorem asks_packet (p : Peer) (family action : UInt8) (rest : Bytes) :
    asks (p.packet family action rest) =
      decide (family = packetFInit ∨ (family = packetAccount ∧ action = packetRequest)) := by
  simp only [asks, isInit, isRequest, Peer.packet, family_new, action_new, Bool.decide_or]

/-- The client sends. -/
theorem Link.Kept.peer {event : Event} {next : Link} (h : s.Kept) (hPeer : match event with
    | .greet _ | .send .. | .request _ => True
    | _ => False) (hStep : step enforceSequence s event = some next) : next.Kept := by
  cases event with
  | greet rest =>
      obtain ⟨hGreeted, hNext⟩ := Option.ite_none_left_eq_some.mp hStep
      obtain rfl := Option.some.inj hNext
      refine ⟨h.fine, fun hConnected => ?_⟩
      have hAgrees := h.agrees hConnected
      have hFamily := family_new packetAInit packetFInit rest
      refine hAgrees.send (hAgrees.greeted (by simpa using hGreeted)) (accepted_init _ rest) ?_ _ _ (by simp) (by simp)
      exact isPing_of_isInit (decide_eq_true hFamily)
  | send family action rest =>
      obtain ⟨hNot, hNext⟩ := Option.ite_none_left_eq_some.mp hStep
      obtain rfl := Option.some.inj hNext
      simp only [not_or, Bool.not_eq_false, Bool.not_eq_true] at hNot
      obtain ⟨hGreeted, hWaiting, hInternal, hInit, hPing, hRequest⟩ := hNot
      refine ⟨h.fine, fun hConnected => ?_⟩
      have hAgrees := h.agrees hConnected
      obtain ⟨hSame, -⟩ := hAgrees.level hWaiting
      have hAccepted := accepted_packet (s := s.final) (p := s.peer) action rest hInternal
        (hSame ▸ hAgrees.start) hAgrees.count hAgrees.seq (by rw [if_neg hPing, hSame])
      have hAsks : asks (s.peer.packet family action rest) = false := by
        rw [asks_packet]
        exact decide_eq_false (by simp [hInit, hRequest])
      exact hAgrees.send hWaiting hAccepted (isPing_of_other s.peer rest hPing) s.peer.greeted s.peer.waiting
        (by simp [hWaiting]) (by simp [hAsks])
  | request rest =>
      obtain ⟨hNot, hNext⟩ := Option.ite_none_left_eq_some.mp hStep
      obtain rfl := Option.some.inj hNext
      simp only [not_or, Bool.not_eq_false, Bool.not_eq_true] at hNot
      obtain ⟨hGreeted, hWaiting⟩ := hNot
      refine ⟨h.fine, fun hConnected => ?_⟩
      have hAgrees := h.agrees hConnected
      obtain ⟨hSame, -⟩ := hAgrees.level hWaiting
      have hPing : ¬(packetAccount = packetConnection ∧ packetRequest = packetPing) := by decide
      have hAccepted := accepted_packet (s := s.final) (p := s.peer) packetRequest rest
        (show packetAccount ≠ packetInternal by decide) (hSame ▸ hAgrees.start) hAgrees.count hAgrees.seq
        (by rw [if_neg hPing, hSame])
      exact hAgrees.send hWaiting hAccepted (isPing_of_other s.peer rest hPing) s.peer.greeted true
        (by simp [hGreeted]) (by simp)
  | receive | execute | pumpQueue _ | pingAll _ _ => exact hPeer.elim

theorem Link.Kept.step {event : Event} {next : Link} (h : s.Kept) (hGood : ¬GrantsWhilePinged s event)
    (hStep : step enforceSequence s event = some next) : next.Kept := by
  cases event with
  | greet rest | send family action rest | request rest => exact h.peer trivial hStep
  | receive =>
      cases hTo : s.toPeer with
      | nil => simp [Sequences.step, hTo] at hStep
      | cons message toPeer =>
          simp only [Sequences.step, hTo] at hStep
          obtain ⟨r, hReceive, rfl⟩ := Option.map_eq_some_iff.mp hStep
          refine ⟨h.fine, fun hConnected => ?_⟩
          obtain ⟨r', hReceived, hNext⟩ := (h.agrees hConnected).receive hTo
          rw [hReceived] at hReceive
          obtain rfl := Option.some.inj hReceive
          exact hNext
  | execute =>
      cases hTo : s.toServer with
      | nil => simp [Sequences.step, hTo] at hStep
      | cons data toServer =>
          simp only [Sequences.step, hTo] at hStep
          obtain ⟨server, hExecute, rfl⟩ := Option.map_eq_some_iff.mp hStep
          cases hConnected : s.server.connected with
          | false =>
              rw [Server.execute, if_pos (.inr hConnected)] at hExecute
              obtain rfl := Option.some.inj hExecute
              exact kept_of_closed h.fine hConnected
          | true =>
              obtain ⟨server', hExecuted, hFine, hNext⟩ := (h.agrees hConnected).execute enforceSequence hTo hConnected
              rw [hExecuted] at hExecute
              obtain rfl := Option.some.inj hExecute
              exact hNext.kept (hFine.trans h.fine)
  | pumpQueue outcome =>
      obtain ⟨r, hPump, rfl⟩ := Option.map_eq_some_iff.mp hStep
      unfold Server.pumpQueue at hPump
      cases hConnected : s.server.connected with
      | false =>
          rw [if_pos hConnected] at hPump
          obtain rfl := Option.some.inj hPump
          exact kept_of_closed h.fine hConnected
      | true =>
          rw [if_neg (by simp [hConnected])] at hPump
          split at hPump
          next hEmpty =>
            obtain rfl := Option.some.inj hPump
            rw [List.append_nil]
            exact h
          next reader queue hQueue => exact (h.agrees hConnected).handle h.fine hQueue hGood hPump
  | pingAll draw draw' =>
      obtain rfl := Option.some.inj hStep
      cases hNeed : s.server.needpong with
      | true =>
          have hClose : s.server.pingAll draw draw' = (s.server.close, []) := if_pos hNeed
          rw [hClose]
          exact kept_of_closed h.fine rfl
      | false =>
          have hFine : (s.server.pingAll draw draw').1.rejected = false := by
            rw [Server.pingAll, if_neg (by simp [hNeed])]
            exact h.fine
          have hSame : (s.server.pingAll draw draw').1.connected = s.server.connected := by
            rw [Server.pingAll, if_neg (by simp [hNeed])]
          exact ⟨hFine, fun hConnected => (h.agrees (hSame ▸ hConnected)).pingAll hNeed draw draw'⟩

theorem kept_start : Link.start.Kept := by
  refine ⟨rfl, fun _ => ⟨trivial, rfl, by decide, by decide, by decide, by decide, by decide, fun _ => rfl, .nil, ?_⟩⟩
  exact .level rfl (by simp [Link.starts, Link.start])

end Agreement

/-- A client that counts with the server is never turned away for a wrong number. -/
theorem never_rejected (enforceSequence : Bool) (events : List Event)
    (hAvoids : Avoids (step enforceSequence) GrantsWhilePinged .start events) :
    Always (step enforceSequence) (fun s => s.server.rejected = false) .start events :=
  (always_of_avoids (fun _ _ _ h hGood hStep => Link.Kept.step h hGood hStep) kept_start hAvoids).mono
    fun _ h => h.fine

/-- A client is initialized, asks for a name, and answers a ping. -/
def visit : List Event :=
  [.greet [1, 2], .execute, .pumpQueue (.granted 3000000000 5 0 [1]), .receive, .request [65], .execute,
    .pumpQueue (.granted 77 0 30000 []), .receive, .pingAll 2000000000 77, .send 4 1 [66], .receive, .send 4 1 [67],
    .execute, .execute, .execute, .pumpQueue (.other .loggedIn), .pumpQueue (.other .loggedIn)]

theorem never_rejected_visit : Avoids (step true) GrantsWhilePinged .start visit ∧
    Always (step true) (fun s => s.server.rejected = false) .start visit ∧
    ((run (step true) .start visit).map fun s => s.server.needpong) = some false := by
  have hAvoids : Avoids (step true) GrantsWhilePinged .start visit := by decide +kernel
  exact ⟨hAvoids, never_rejected true visit hAvoids, by decide +kernel⟩

/-- A name is approved while the client answers a ping: the client goes back to a start that the server has left. -/
example : ((run (step true) .start [.greet [], .execute, .pumpQueue (.granted 3000000000 5 0 []), .receive,
    .request [], .execute, .pingAll 2000000000 77, .receive, .pumpQueue (.granted 77 0 30000 []), .execute, .receive,
    .send 4 1 [], .execute]).map fun s => s.server.rejected) = some true := by
  decide +kernel

end Etheos.Sequences
