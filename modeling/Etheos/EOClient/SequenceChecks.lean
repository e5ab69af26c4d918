import Etheos.EOClient.Sequence

/-! What the two sides read in the packets of the other one: the starts, and the number of each packet. -/
namespace Etheos.Sequences

open General PacketProcessor
open PacketReader (between getNumber_between getByte_between between_remaining copyN_between between_advance)
open ChestSpawns (rand)

section Wire

theorem rand_range (draw : UInt32) (lo hi : Int) (hLo : 0 ≤ lo) (h : lo ≤ hi) :
    lo ≤ rand draw lo hi ∧ rand draw lo hi ≤ hi := by
  have hDraw : (draw.toNat : Int) < 2 ^ 32 := by exact_mod_cast draw.toNat_lt
  have hNonneg : 0 ≤ (draw.toNat : Int) * (hi - lo + 1) := mul_nonneg (by positivity) (by omega)
  have hLess : (draw.toNat : Int) * (hi - lo + 1) < 2 ^ 32 * (hi - lo + 1) := by
    have hPos : 0 < hi - lo + 1 := by omega
    gcongr
  unfold rand
  rw [Int.tdiv_eq_ediv_of_nonneg (by omega)]
  omega

theorem toNat_ofInt {n : Int} (hLo : 0 ≤ n) (hHi : n < 256) : ((UInt8.ofInt n).toNat : Int) = n := by
  rw [UInt8.ofInt, UInt8.toNat_ofNat']
  omega

theorem toNat_ofInt_short {n : Int} (hLo : 0 ≤ n) (hHi : n < 65536) : ((UInt16.ofInt n).toNat : Int) = n := by
  rw [UInt16.ofInt, UInt16.toNat_ofNat']
  omega

/-- What is read where a short was written. -/
theorem getShort_written (done rest : Bytes) {num : UInt16} (h : num.toNat < 64009) :
    (between done ((eNumber num.toNat).take 2 ++ rest)).getShort =
      .ok (num, between (done ++ (eNumber num.toNat).take 2) rest) := by
  simp only [PacketReader.getShort, getNumber_between done rest (by decide : 1 ≤ 2 ∧ 2 ≤ 4) h]
  simp [Bind.bind, Except.bind, Pure.pure, Except.pure]

theorem getChar_written (done rest : Bytes) {num : UInt8} (h : num.toNat < 253) :
    (between done ((eNumber num.toNat).take 1 ++ rest)).getChar =
      .ok (num, between (done ++ (eNumber num.toNat).take 1) rest) := by
  simp only [PacketReader.getChar, getNumber_between done rest (by decide : 1 ≤ 1 ∧ 1 ≤ 4) h]
  simp [Bind.bind, Except.bind, Pure.pure, Except.pure]

variable {s : Sequence}

/-- The two bytes of an initialization stand for the start, whatever is drawn. -/
theorem seqInitBytes_start (draw : UInt32) (hLo : 0 ≤ s.seqStart) (hHi : s.seqStart ≤ 1757) :
    (((s.getSeqInitBytes draw).1.toNat : Int) * 7 + (s.getSeqInitBytes draw).2.toNat - 13 = s.seqStart) ∧
      (s.getSeqInitBytes draw).1.toNat < 253 ∧ (s.getSeqInitBytes draw).2.toNat < 253 := by
  have hMax : (s.seqStart + 13).tdiv 7 = (s.seqStart + 13) / 7 := Int.tdiv_eq_ediv_of_nonneg (by omega)
  have hMin : max 0 ((s.seqStart - 252 + 13 + 6).tdiv 7) = max 0 ((s.seqStart - 252 + 13 + 6) / 7) := by
    obtain hNeg | hNonneg := lt_or_ge (s.seqStart - 252 + 13 + 6) 0
    · have hTurned : (s.seqStart - 252 + 13 + 6).tdiv 7 = -((252 - 13 - 6 - s.seqStart) / 7) := by
        rw [← Int.tdiv_eq_ediv_of_nonneg (by omega), ← Int.neg_tdiv]
        congr 1
        omega
      omega
    · rw [Int.tdiv_eq_ediv_of_nonneg hNonneg]
  have hDrawn := rand_range draw (max 0 ((s.seqStart - 252 + 13 + 6) / 7)) ((s.seqStart + 13) / 7)
    (by omega) (by omega)
  simp only [Sequence.getSeqInitBytes, hMax, hMin]
  generalize rand draw (max 0 ((s.seqStart - 252 + 13 + 6) / 7)) ((s.seqStart + 13) / 7) = s1 at hDrawn
  have hFirst : ((UInt8.ofInt s1).toNat : Int) = s1 := toNat_ofInt (by omega) (by omega)
  have hSecond : ((UInt8.ofInt (s.seqStart - (UInt8.ofInt s1).toNat * 7 + 13)).toNat : Int) =
      s.seqStart - (UInt8.ofInt s1).toNat * 7 + 13 := toNat_ofInt (by omega) (by omega)
  omega

theorem seqUpdateBytes_start (draw : UInt32) (hLo : 0 ≤ s.upcomingSeqStart) (hHi : s.upcomingSeqStart ≤ 1757) :
    (((s.getSeqUpdateBytes draw).1.toNat : Int) - (s.getSeqUpdateBytes draw).2.toNat = s.upcomingSeqStart) ∧
      (s.getSeqUpdateBytes draw).1.toNat < 64009 ∧ (s.getSeqUpdateBytes draw).2.toNat < 253 := by
  have hDrawn := rand_range draw s.upcomingSeqStart (s.upcomingSeqStart + 252) hLo (by omega)
  simp only [Sequence.getSeqUpdateBytes]
  generalize rand draw s.upcomingSeqStart (s.upcomingSeqStart + 252) = s1 at hDrawn
  have hFirst : ((UInt16.ofInt s1).toNat : Int) = s1 := toNat_ofInt_short (by omega) (by omega)
  have hSecond : ((UInt8.ofInt ((UInt16.ofInt s1).toNat - s.upcomingSeqStart)).toNat : Int) =
      (UInt16.ofInt s1).toNat - s.upcomingSeqStart := toNat_ofInt (by omega) (by omega)
  omega

/-- The client gets this start from the message. -/
def Message.Grants (start : Int) : Message → Prop
  | .init payload => Peer.readInit payload = .ok start
  | .approved payload => Peer.readApproved payload = .ok start
  | _ => False

theorem initReply_grants (draw : UInt32) (rest : Bytes) (hLo : 0 ≤ s.seqStart) (hHi : s.seqStart ≤ 1757) :
    (initReply s draw rest).Grants s.seqStart := by
  obtain ⟨hStart, -, -⟩ := seqInitBytes_start draw hLo hHi
  have hPayload : ((((PacketBuilder.new packetFInit packetAInit).addByte initOk).addByte
      (s.getSeqInitBytes draw).1).addByte (s.getSeqInitBytes draw).2 |>.append rest).data =
      initOk :: (s.getSeqInitBytes draw).1 :: (s.getSeqInitBytes draw).2 :: rest := by
    simp [PacketBuilder.addByte, PacketBuilder.new, PacketBuilder.setID]
  simp only [initReply, Message.Grants, Peer.readInit, hPayload, getByte_between, Bind.bind, Except.bind]
  exact congrArg Except.ok hStart

/-- A short takes two bytes, whatever is in it. -/
theorem getShort_bytes (done rest : Bytes) {bytes : Bytes} (h : bytes.length = 2) :
    ∃ n, (between done (bytes ++ rest)).getShort = .ok (n, between (done ++ bytes) rest) := by
  have hRead : min 2 (between done (bytes ++ rest)).remaining = 2 := by
    rw [between_remaining, List.length_append, h]
    omega
  have hCopy := copyN_between done bytes rest
  have hAdvance := between_advance done bytes rest
  rw [h] at hCopy hAdvance
  simp only [PacketReader.getShort, PacketReader.getNumber, hRead, hAdvance]
  simp only [between, hCopy, Bind.bind, Except.bind, Pure.pure, Except.pure]
  exact ⟨_, rfl⟩

theorem accountReply_grants (createId : UInt16) (hLo : 0 ≤ s.seqStart) (hHi : s.seqStart ≤ 240) :
    (accountReply s createId).Grants s.seqStart := by
  have hStart : ((UInt8.ofInt s.seqStart).toNat : Int) = s.seqStart := toNat_ofInt hLo (by omega)
  have hPayload : (((PacketBuilder.new packetAccount 3).addShort createId).addChar (UInt8.ofInt s.seqStart)
      |>.addString [79, 75]).data =
      (eNumber createId.toNat).take 2 ++ ((eNumber (UInt8.ofInt s.seqStart).toNat).take 1 ++ [79, 75]) := by
    simp [PacketBuilder.addShort, PacketBuilder.addChar, PacketBuilder.addString, PacketBuilder.new,
      PacketBuilder.setID]
  obtain ⟨id, hId⟩ := getShort_bytes [] ((eNumber (UInt8.ofInt s.seqStart).toNat).take 1 ++ [79, 75])
    (show ((eNumber createId.toNat).take 2).length = 2 by simp)
  simp only [accountReply, Message.Grants, Peer.readApproved, hPayload, hId,
    getChar_written _ _ (show (UInt8.ofInt s.seqStart).toNat < 253 by omega), Bind.bind, Except.bind]
  exact congrArg Except.ok hStart

/-- The message is a ping with this start. -/
def Message.Pings (start : Int) : Message → Prop
  | .ping payload => Peer.readPing payload = .ok start
  | _ => False

theorem pingPacket_pings (draw : UInt32) (hLo : 0 ≤ s.upcomingSeqStart) (hHi : s.upcomingSeqStart ≤ 1757) :
    (pingPacket s draw).Pings s.upcomingSeqStart := by
  obtain ⟨hStart, hShort, hChar⟩ := seqUpdateBytes_start draw hLo hHi
  have hPayload : (((PacketBuilder.new packetConnection 8).addShort (s.getSeqUpdateBytes draw).1).addChar
      (s.getSeqUpdateBytes draw).2).data = (eNumber (s.getSeqUpdateBytes draw).1.toNat).take 2 ++
        ((eNumber (s.getSeqUpdateBytes draw).2.toNat).take 1 ++ []) := by
    simp [PacketBuilder.addShort, PacketBuilder.addChar, PacketBuilder.new, PacketBuilder.setID]
  simp only [pingPacket, Message.Pings, Peer.readPing, hPayload, getShort_written _ _ hShort,
    getChar_written _ _ hChar, Bind.bind, Except.bind]
  exact congrArg Except.ok hStart

end Wire

section Receive

variable {s : Sequence} {data : Bytes}

/-- The numbers behind a packet that is let through. -/
def Sequence.after (s : Sequence) (data : Bytes) : Sequence :=
  (if isPing (.new data) then s.pongNewSequence else s).genSequence.2

/-- The number that `Execute` expects in the packet. -/
def Sequence.expected (s : Sequence) (data : Bytes) : Int :=
  (if isPing (.new data) then s.upcomingSeqStart else s.seqStart) + s.seq

/-- The packet has this number. -/
def Reads (n : Int) (data : Bytes) : Prop :=
  ∃ m pos, readSequence n (.new data) = .ok (m, ⟨data, pos⟩) ∧ (m : Int) = n

/-- `Execute` lets the packet through. -/
structure Accepted (s : Sequence) (data : Bytes) : Prop where
  long : 2 ≤ data.length
  family : (PacketReader.new data).family ≠ packetInternal
  number : isInit (.new data) = false → Reads (s.expected data) data

theorem isPing_of_isInit (h : isInit (.new data) = true) : isPing (.new data) = false :=
  decide_eq_false fun hPing => absurd ((of_decide_eq_true h).symm.trans hPing.1) (by decide)

theorem Accepted.check (h : Accepted s data) (enforceSequence : Bool) :
    ∃ pos, s.check enforceSequence (.new data) = .ok (true, s.after data, ⟨data, pos⟩) := by
  cases hInit : isInit (.new data) with
  | true =>
      refine ⟨2, ?_⟩
      rw [Sequence.check, if_pos hInit, Sequence.after, if_neg (by simp [isPing_of_isInit hInit])]
      rfl
  | false =>
      obtain ⟨m, pos, hRead, hNumber⟩ := h.number hInit
      have hExpected : (if isPing (.new data) then s.pongNewSequence else s).genSequence =
          (s.expected data, s.after data) := by
        refine Prod.ext ?_ rfl
        cases hPing : isPing (.new data) <;>
          simp [Sequence.genSequence, Sequence.pongNewSequence, Sequence.expected, hPing]
      refine ⟨pos, ?_⟩
      rw [Sequence.check, if_neg (by simp [hInit])]
      simp only [hExpected, hRead, Bind.bind, Except.bind, Pure.pure, Except.pure, hNumber, beq_self_eq_true,
        Bool.or_true]

theorem after_of_not_ping (h : isPing (.new data) = false) : s.after data = { s with seq := (s.seq + 1) % 10 } := by
  simp [Sequence.after, h, Sequence.genSequence]

theorem after_ping (h : isPing (.new data) = true) :
    s.after data = { s with seqStart := s.upcomingSeqStart, seq := (s.seq + 1) % 10 } := by
  simp [Sequence.after, h, Sequence.genSequence, Sequence.pongNewSequence]

theorem after_seq (s : Sequence) (data : Bytes) : (s.after data).seq = (s.seq + 1) % 10 := by
  cases h : isPing (.new data) with
  | false => rw [after_of_not_ping h]
  | true => rw [after_ping h]

theorem after_upcoming (s : Sequence) (data : Bytes) : (s.after data).upcomingSeqStart = s.upcomingSeqStart := by
  cases h : isPing (.new data) with
  | false => rw [after_of_not_ping h]
  | true => rw [after_ping h]

theorem family_new (action family : UInt8) (rest : Bytes) :
    (PacketReader.new (action :: family :: rest)).family = family := by
  simp [PacketReader.family, PacketReader.new, PacketReader.length]

theorem action_new (action family : UInt8) (rest : Bytes) :
    (PacketReader.new (action :: family :: rest)).action = action := rfl

theorem accepted_init (s : Sequence) (rest : Bytes) : Accepted s (packetAInit :: packetFInit :: rest) := by
  have hFamily := family_new packetAInit packetFInit rest
  have hInit : isInit (.new (packetAInit :: packetFInit :: rest)) = true := decide_eq_true hFamily
  exact ⟨by simp, by rw [hFamily]; decide, fun h => absurd hInit (by simp [h])⟩

/-- What a client writes as its number is read as that number. -/
theorem reads_packet (p : Peer) (family action : UInt8) (rest : Bytes) (hStart : 0 ≤ p.start ∧ p.start ≤ 1757)
    (hCount : 0 ≤ p.count ∧ p.count < 10) : Reads (p.start + p.count) (p.packet family action rest) := by
  have hNew : PacketReader.new (p.packet family action rest) =
      between [action, family] (Peer.sequenceBytes (p.start + p.count) ++ rest) := rfl
  have hBehind : between ([action, family] ++ Peer.sequenceBytes (p.start + p.count)) rest =
      ⟨p.packet family action rest, ([action, family] ++ Peer.sequenceBytes (p.start + p.count)).length⟩ := by
    simp [between, Peer.packet]
  by_cases hShort : p.start + p.count ≥ 253
  · have hNat : ((UInt16.ofInt (p.start + p.count)).toNat : Int) = p.start + p.count :=
      toNat_ofInt_short (by omega) (by omega)
    have hToNat : (p.start + p.count).toNat = (UInt16.ofInt (p.start + p.count)).toNat := by omega
    have hBytes : Peer.sequenceBytes (p.start + p.count) =
        (eNumber (UInt16.ofInt (p.start + p.count)).toNat).take 2 := by
      rw [Peer.sequenceBytes, if_pos hShort, hToNat]
    have hRead := getShort_written [action, family] rest
      (show (UInt16.ofInt (p.start + p.count)).toNat < 64009 by omega)
    rw [← hBytes, hBehind] at hRead
    refine ⟨(UInt16.ofInt (p.start + p.count)).toNat,
      ([action, family] ++ Peer.sequenceBytes (p.start + p.count)).length,
      ?_, hNat⟩
    rw [readSequence, if_pos hShort, hNew, hRead]
    rfl
  · have hNat : ((UInt8.ofInt (p.start + p.count)).toNat : Int) = p.start + p.count :=
      toNat_ofInt (by omega) (by omega)
    have hToNat : (p.start + p.count).toNat = (UInt8.ofInt (p.start + p.count)).toNat := by omega
    have hBytes : Peer.sequenceBytes (p.start + p.count) =
        (eNumber (UInt8.ofInt (p.start + p.count)).toNat).take 1 := by
      rw [Peer.sequenceBytes, if_neg hShort, hToNat]
    have hRead := getChar_written [action, family] rest
      (show (UInt8.ofInt (p.start + p.count)).toNat < 253 by omega)
    rw [← hBytes, hBehind] at hRead
    refine ⟨(UInt8.ofInt (p.start + p.count)).toNat,
      ([action, family] ++ Peer.sequenceBytes (p.start + p.count)).length,
      ?_, hNat⟩
    rw [readSequence, if_neg hShort, hNew, hRead]
    rfl

theorem isPing_packet (p : Peer) (family action : UInt8) (rest : Bytes) :
    isPing (.new (p.packet family action rest)) = decide (family = packetConnection ∧ action = packetPing) := by
  simp only [isPing, Peer.packet, family_new, action_new]

/-- A packet is let through where both sides count alike. -/
theorem accepted_packet {p : Peer} {family : UInt8} (action : UInt8) (rest : Bytes)
    (hInternal : family ≠ packetInternal)
    (hStart : 0 ≤ p.start ∧ p.start ≤ 1757) (hCount : 0 ≤ p.count ∧ p.count < 10) (hSeq : s.seq = p.count)
    (hSame : p.start = if family = packetConnection ∧ action = packetPing then s.upcomingSeqStart else s.seqStart) :
    Accepted s (p.packet family action rest) := by
  have hExpected : s.expected (p.packet family action rest) = p.start + p.count := by
    simp only [Sequence.expected, isPing_packet, decide_eq_true_eq, hSeq, hSame]
  refine ⟨by simp [Peer.packet], by rw [Peer.packet, family_new]; exact hInternal, fun _ => ?_⟩
  rw [hExpected]
  exact reads_packet p family action rest hStart hCount

/-- All packets are let through, one after the other. -/
def Accepts : Sequence → List Bytes → Prop
  | _, [] => True
  | s, data :: rest => Accepted s data ∧ Accepts (s.after data) rest

theorem accepts_append (s : Sequence) (packets : List Bytes) (data : Bytes) :
    Accepts s (packets ++ [data]) ↔ Accepts s packets ∧ Accepted (packets.foldl Sequence.after s) data := by
  induction packets generalizing s with
  | nil => simp [Accepts]
  | cons first packets ih => simp only [List.cons_append, Accepts, List.foldl_cons, ih, and_assoc]

/-- The start of the numbers that is announced does not matter before the answer to the ping. -/
def Sequence.announce (s : Sequence) (upcoming : Int) : Sequence := { s with upcomingSeqStart := upcoming }

theorem after_announce (upcoming : Int) (h : isPing (.new data) = false) :
    (s.announce upcoming).after data = (s.after data).announce upcoming := by
  simp [after_of_not_ping h, Sequence.announce]

theorem accepted_announce (upcoming : Int) (h : isPing (.new data) = false) (hAccepted : Accepted s data) :
    Accepted (s.announce upcoming) data := by
  have hExpected : (s.announce upcoming).expected data = s.expected data := by
    simp [Sequence.expected, Sequence.announce, h]
  exact ⟨hAccepted.long, hAccepted.family, fun hInit => hExpected ▸ hAccepted.number hInit⟩

theorem foldl_announce (upcoming : Int) {packets : List Bytes} (h : ∀ data ∈ packets, isPing (.new data) = false)
    (s : Sequence) :
    packets.foldl Sequence.after (s.announce upcoming) = (packets.foldl Sequence.after s).announce upcoming := by
  induction packets generalizing s with
  | nil => rfl
  | cons data packets ih =>
      obtain ⟨hFirst, hRest⟩ := List.forall_mem_cons.mp h
      rw [List.foldl_cons, List.foldl_cons, after_announce upcoming hFirst, ih hRest]

theorem accepts_announce (upcoming : Int) {packets : List Bytes} (h : ∀ data ∈ packets, isPing (.new data) = false)
    {s : Sequence} (hAccepts : Accepts s packets) : Accepts (s.announce upcoming) packets := by
  induction packets generalizing s with
  | nil => trivial
  | cons data packets ih =>
      obtain ⟨hFirst, hRest⟩ := List.forall_mem_cons.mp h
      refine ⟨accepted_announce upcoming hFirst hAccepts.1, ?_⟩
      rw [after_announce upcoming hFirst]
      exact ih hRest hAccepts.2

end Receive

end Etheos.Sequences
