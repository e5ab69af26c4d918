import Etheos.EOClient.Upload

/-! One upload, from an empty buffer to the end. Nothing else is sent meanwhile, and
player killing is off. -/
namespace Etheos

open PacketProcessor General

inductive TransferEvent
  | tick
  | doSend (written : Nat)
  deriving DecidableEq

namespace Sender

def transfer (c : Sender) : TransferEvent → Option Sender
  | .tick => some (c.tick false)
  | .doSend written => c.doSend written

/-- The indices that `Send` writes, one after the other. -/
def sendIndices (mask : Nat) : Nat → Nat → List Nat
  | _, 0 => []
  | ppos, length + 1 => ((ppos + 1) &&& mask) :: sendIndices mask ((ppos + 1) &&& mask) length

/-- The indices that the next tick reads the file into. -/
def tickIndices (c : Sender) : List Nat :=
  match c.upload with
  | some file => List.range' (c.sendBuffer.ppos + 1) (c.fileRead file).length
  | none => []

/-- What is to be seen of an upload at any moment: a part of the header and the file has
been written, and no index lies outside of the buffer. The upload ends with the first tick
after the last byte, the original buffer is back then, and it can always come to this. -/
structure Delivering (original : Sender) (packet : Bytes) (c : Sender) : Prop where
  written : c.written <+: original.written ++ packet
  inside : ∀ i ∈ c.tickIndices, i < c.sendBuffer.size
  ends : c.written = original.written ++ packet → (c.tick false).upload = none
  restored : c.upload = none →
    c.written = original.written ++ packet ∧ c.sendBuffer = original.sendBuffer
  completes : ∃ events next, run transfer c events = some next ∧ next.upload = none

/-- The upload of a file goes well, whatever the socket takes and however often `Tick` is
called. -/
def Delivers (c : Sender) (type : FileType) (data : Bytes) (initReply : UInt8) : Prop :=
  let header := (uploadHeader type initReply data.length).get
  (∀ i ∈ sendIndices (c.uploadBuffer data.length).mask 0 header.length,
    i < (c.uploadBuffer data.length).size) ∧
  ∀ events, Always transfer (Delivering c (header ++ data))
    (c.beginUpload type (some data) initReply) events

/-- The upload is under way: what has not been written yet is in the buffer, in order,
and still in the file. -/
structure Underway (original : Sender) (header : Bytes) (file : OpenFile) (c : Sender) : Prop where
  upload : c.upload = some file
  pos_le : file.pos ≤ file.data.length
  wf : c.sendBuffer.WF
  ppos : c.sendBuffer.ppos = header.length + file.pos
  room : header.length + file.data.length < c.sendBuffer.size
  kept : c.sendBuffer2 = original.sendBuffer
  stream : c.written ++ c.sendBuffer.contents ++ file.data.drop file.pos =
    original.written ++ (header ++ file.data)

structure Done (original : Sender) (packet : Bytes) (c : Sender) : Prop where
  upload : c.upload = none
  buffer : c.sendBuffer = original.sendBuffer
  written : c.written = original.written ++ packet

section Sizes

theorem uploadHeader_map (initReply : UInt8) (size : Nat) :
    (uploadHeader .fileMap initReply size).get.length = 5 := by
  rw [PacketBuilder.get_length]
  rfl

theorem uploadHeader_other {type : FileType} (h : type ≠ .fileMap) (initReply : UInt8) (size : Nat) :
    (uploadHeader type initReply size).get.length = 6 := by
  rw [PacketBuilder.get_length, uploadHeader, if_pos h]
  rfl

theorem sendIndices_inside {r : RingBuffer UInt8} (h : r.WF) (ppos length : Nat) :
    ∀ i ∈ sendIndices r.mask ppos length, i < r.size := by
  induction length generalizing ppos with
  | zero =>
      intro i hi
      cases hi
  | succ length ih =>
      intro i hi
      rcases List.mem_cons.mp hi with rfl | hRest
      · rw [h.and_mask]
        exact Nat.mod_lt _ h.size_pos
      · exact ih _ i hRest

/-- The buffer has room for six bytes of header, and some more unless the size of the
whole is a power of two. -/
theorem tempBufferSize_le {c : Sender} (h : c.sendBuffer.WF) (uploadSize : Nat) :
    uploadSize + 6 ≤ c.tempBufferSize uploadSize :=
  (enlarge_spec (uploadSize + 6) (uploadSize + 6) c.sendBuffer.size).2 h.size_pos (by omega)

end Sizes

section Steps

variable {original c next : Sender} {header : Bytes} {file : OpenFile}

theorem beginUpload_underway (hWF : original.sendBuffer.WF) (hUpload : original.upload = none)
    {type : FileType} {data : Bytes} {initReply : UInt8}
    (hRoom : (uploadHeader type initReply data.length).get.length + data.length <
      original.tempBufferSize data.length) :
    Underway original (uploadHeader type initReply data.length).get ⟨type, 0, data⟩
      (original.beginUpload type (some data) initReply) := by
  have hSize := original.uploadBuffer_size data.length
  have hFresh := uploadBuffer_wf hWF data.length
  have hFree : (original.uploadBuffer data.length).free = original.tempBufferSize data.length := hSize
  rw [beginUpload_idle hUpload type data initReply (by omega)]
  generalize (uploadHeader type initReply data.length).get = header at *
  have hPlace : (original.uploadBuffer data.length).ppos + header.length <
      (original.uploadBuffer data.length).size := by
    change 0 + _ < _
    omega
  obtain ⟨hPut, hPutSize, hContents⟩ := hFresh.put (show header.length ≤ _ by omega)
  constructor
  case upload => rfl
  case pos_le => exact Nat.zero_le _
  case wf => exact hPut
  case ppos => exact (hFresh.put_ppos hPlace).trans (Nat.zero_add _)
  case room => exact Nat.lt_of_lt_of_eq hRoom (hPutSize.trans hSize).symm
  case kept => rfl
  case stream =>
    dsimp only
    rw [hContents, RingBuffer.contents_of_unused rfl, List.nil_append, List.drop_zero, List.append_assoc]

/-- What a tick reads fits behind what is in the buffer. -/
theorem Underway.fits (h : Underway original header file c) :
    c.sendBuffer.ppos + (c.fileRead file).length < c.sendBuffer.size := by
  have hLength := fileRead_length c file
  have hPpos := h.ppos
  have hRoom := h.room
  have hPos := h.pos_le
  omega

theorem Underway.inside (h : Underway original header file c) :
    ∀ i ∈ c.tickIndices, i < c.sendBuffer.size := by
  intro i hi
  have hFits := h.fits
  rw [tickIndices, h.upload] at hi
  have hRange := List.mem_range'_1.mp hi
  omega

theorem Underway.written (h : Underway original header file c) :
    c.written <+: original.written ++ (header ++ file.data) := by
  have hStream := h.stream
  rw [List.append_assoc] at hStream
  exact ⟨_, hStream⟩

/-- Once all has been written, the buffer is empty and the file has been read. -/
theorem Underway.ends (h : Underway original header file c)
    (hAll : c.written = original.written ++ (header ++ file.data)) : (c.tick false).upload = none := by
  have hRest : c.sendBuffer.contents ++ file.data.drop file.pos = [] := by
    have hStream := h.stream
    rw [← hAll, List.append_assoc] at hStream
    exact List.append_cancel_left (hStream.trans (List.append_nil _).symm)
  obtain ⟨hContents, hDrop⟩ := List.append_eq_nil_iff.mp hRest
  have hUsed : c.sendBuffer.used = 0 := by
    rw [← RingBuffer.contents_length, hContents]
    rfl
  have hPos := List.drop_eq_nil_iff.mp hDrop
  have hLe := h.pos_le
  have hLength := fileRead_length c file
  obtain ⟨hMore, -⟩ | ⟨-, -, hTick⟩ | ⟨-, hNot, -⟩ := tick_cases h.upload
  case inl => omega
  case inr.inl => rw [hTick]
  case inr.inr =>
    refine absurd ⟨by omega, ?_⟩ hNot
    rw [RingBuffer.free, hUsed, Nat.sub_zero]

/-- A tick reads on, or ends an upload that is complete. -/
theorem tick_underway (h : Underway original header file c) :
    Underway original header { file with pos := file.pos + (c.fileRead file).length } (c.tick false) ∨
      Done original (header ++ file.data) (c.tick false) := by
  have hPos := h.pos_le
  have hLength := fileRead_length c file
  obtain ⟨-, hTick⟩ | ⟨hAll, hSent, hTick⟩ | ⟨hNone, -, hTick⟩ := tick_cases h.upload
  case inl =>
    have hFits := h.fits
    obtain ⟨hPut, hPutSize, hContents⟩ := h.wf.put (show (c.fileRead file).length ≤ _ by omega)
    rw [hTick, h.wf.extend_eq_put hFits]
    left
    constructor
    case upload => rfl
    case pos_le =>
      dsimp only
      omega
    case wf => exact hPut
    case ppos =>
      dsimp only
      rw [h.wf.put_ppos hFits, h.ppos, Nat.add_assoc]
    case room => exact Nat.lt_of_lt_of_eq h.room hPutSize.symm
    case kept => exact h.kept
    case stream =>
      dsimp only
      rw [hContents, ← h.stream, ← fileRead_append c file]
      simp only [List.append_assoc]
  case inr.inl =>
    have hUnused : c.sendBuffer.used = 0 := by
      have hUsed := h.wf.used_le
      unfold RingBuffer.free at hSent
      omega
    have hStream := h.stream
    rw [RingBuffer.contents_of_unused hUnused, hAll, List.drop_length, List.append_nil,
      List.append_nil] at hStream
    rw [hTick]
    exact .inr ⟨rfl, h.kept, hStream⟩
  case inr.inr =>
    rw [hTick, hNone]
    exact .inl h

theorem doSend_underway (h : Underway original header file c) {written : Nat}
    (hStep : c.doSend written = some next) : Underway original header file next := by
  obtain ⟨-, rfl⟩ := doSend_take h.wf hStep
  obtain ⟨hOut, hWF, hSize, hRest⟩ := h.wf.take written
  have hSplit : (c.sendBuffer.take written).1 ++ (c.sendBuffer.take written).2.contents =
      c.sendBuffer.contents := by
    rw [hOut, hRest, List.take_append_drop]
  refine ⟨h.upload, h.pos_le, hWF, h.ppos, Nat.lt_of_lt_of_eq h.room hSize.symm, h.kept, ?_⟩
  dsimp only
  rw [List.append_assoc c.written, hSplit, h.stream]

/-- Nothing is left to send in the original buffer. -/
theorem doSend_done {packet : Bytes} (hWF : original.sendBuffer.WF) (hUnused : original.sendBuffer.used = 0)
    (h : Done original packet c) {written : Nat} (hStep : c.doSend written = some next) :
    Done original packet next := by
  obtain ⟨hWritten, rfl⟩ := doSend_take (h.buffer.symm ▸ hWF) hStep
  rw [h.buffer, hUnused] at hWritten
  obtain rfl := Nat.le_zero.mp hWritten
  refine ⟨h.upload, h.buffer, ?_⟩
  exact (List.append_nil _).trans h.written

end Steps

/-- An upload is under way or over. -/
def Transferring (original : Sender) (header : Bytes) (type : FileType) (data : Bytes) (c : Sender) :
    Prop :=
  (∃ pos, Underway original header ⟨type, pos, data⟩ c) ∨ Done original (header ++ data) c

section Progress

variable {original : Sender} {header : Bytes} {type : FileType} {data : Bytes}

/-- Bytes in the file are to be read first and to be sent then. -/
def toDo (data : Bytes) (pos : Nat) (c : Sender) : Nat := 2 * (data.length - pos) + c.sendBuffer.used

/-- There is always an event that brings an upload closer to its end. -/
theorem Underway.progress {c : Sender} {pos : Nat} (h : Underway original header ⟨type, pos, data⟩ c) :
    ∃ event next, transfer c event = some next ∧ (next.upload = none ∨
      ∃ pos', Underway original header ⟨type, pos', data⟩ next ∧ toDo data pos' next < toDo data pos c) := by
  have hLength := fileRead_length c ⟨type, pos, data⟩
  by_cases hUsed : c.sendBuffer.used = 0
  · refine ⟨.tick, _, rfl, ?_⟩
    obtain ⟨hMore, hTick⟩ | ⟨-, -, hTick⟩ | ⟨hNone, hNot, -⟩ := tick_cases h.upload
    case inl =>
      rcases tick_underway h with hNext | hDone
      · refine .inr ⟨_, hNext, ?_⟩
        have hNow : (c.tick false).sendBuffer.used = (c.fileRead ⟨type, pos, data⟩).length := by
          rw [hTick]
          change c.sendBuffer.used + _ = _
          rw [hUsed, Nat.zero_add]
        dsimp only at hLength
        rw [toDo, toDo, hNow, hUsed]
        dsimp only
        omega
      · exact .inl hDone.upload
    case inr.inl => exact .inl (by rw [hTick])
    case inr.inr =>
      have hSize := h.wf.size_pos
      have hPos := h.pos_le
      have hFree : c.sendBuffer.free = c.sendBuffer.size := by
        rw [RingBuffer.free, hUsed, Nat.sub_zero]
      dsimp only at hPos hLength hNot
      exact absurd ⟨by omega, hFree⟩ hNot
  · have hBlock : 0 < Client.blockSize := by decide
    obtain ⟨next, hStep⟩ : ∃ next, c.doSend (min c.sendBuffer.used Client.blockSize) = some next :=
      ⟨_, if_pos (Nat.le_refl _)⟩
    refine ⟨.doSend _, next, hStep, .inr ⟨pos, doSend_underway h hStep, ?_⟩⟩
    obtain ⟨-, rfl⟩ := doSend_take h.wf hStep
    have hLess : (c.sendBuffer.take (min c.sendBuffer.used Client.blockSize)).2.used <
        c.sendBuffer.used := by
      change c.sendBuffer.used - _ < _
      omega
    exact Nat.add_lt_add_left hLess _

theorem Transferring.completes {c : Sender} (h : Transferring original header type data c) :
    ∃ events next, run transfer c events = some next ∧ next.upload = none := by
  rcases h with ⟨pos, h⟩ | hDone
  · induction hTodo : toDo data pos c using Nat.strong_induction_on generalizing c pos with
    | _ n ih =>
        subst hTodo
        obtain ⟨event, next, hStep, hEnd | ⟨pos', hNext, hLess⟩⟩ := h.progress
        · exact ⟨[event], next, run_cons hStep [], hEnd⟩
        · obtain ⟨events, last, hRun, hEnd⟩ := ih _ hLess pos' hNext rfl
          exact ⟨event :: events, last, (run_cons hStep events).trans hRun, hEnd⟩
  · exact ⟨[], c, rfl, hDone.upload⟩

theorem Transferring.delivering {c : Sender} (h : Transferring original header type data c) :
    Delivering original (header ++ data) c where
  written := by
    rcases h with ⟨pos, h⟩ | hDone
    · exact h.written
    · exact hDone.written ▸ List.prefix_refl _
  inside := by
    rcases h with ⟨pos, h⟩ | hDone
    · exact h.inside
    · intro i hi
      rw [tickIndices, hDone.upload] at hi
      cases hi
  ends := by
    rcases h with ⟨pos, h⟩ | hDone
    · exact h.ends
    · intro _
      rw [tick_idle hDone.upload]
      exact hDone.upload
  restored := by
    rcases h with ⟨pos, h⟩ | hDone
    · intro hNone
      cases hNone.symm.trans h.upload
    · exact fun _ => ⟨hDone.written, hDone.buffer⟩
  completes := h.completes

theorem transfer_transferring (hWF : original.sendBuffer.WF) (hUnused : original.sendBuffer.used = 0)
    (c : Sender) (event : TransferEvent) (next : Sender)
    (h : Transferring original header type data c) (hStep : transfer c event = some next) :
    Transferring original header type data next := by
  cases event with
  | tick =>
      obtain rfl := Option.some.inj hStep
      rcases h with ⟨pos, h⟩ | hDone
      · exact (tick_underway h).imp_left fun hNext => ⟨_, hNext⟩
      · rw [tick_idle hDone.upload]
        exact .inr hDone
  | doSend written =>
      rcases h with ⟨pos, h⟩ | hDone
      · exact .inl ⟨pos, doSend_underway h hStep⟩
      · exact .inr (doSend_done hWF hUnused hDone hStep)

end Progress

/-- Where header and file fill the buffer to the last byte, the first tick writes
behind its end. -/
theorem not_delivering_full {c : Sender} (hWF : c.sendBuffer.WF) (hUpload : c.upload = none)
    {type : FileType} (hType : type ≠ .fileMap) {data : Bytes} {initReply : UInt8}
    (hFull : c.tempBufferSize data.length = data.length + 6) (packet : Bytes) :
    ¬Delivering c packet (c.beginUpload type (some data) initReply) := by
  intro h
  have hHeader := uploadHeader_other hType initReply data.length
  have hSize := c.uploadBuffer_size data.length
  have hFresh := uploadBuffer_wf hWF data.length
  have hFree : (c.uploadBuffer data.length).free = (c.uploadBuffer data.length).size := rfl
  have hData : data.length ≠ 0 := by
    intro hEmpty
    obtain ⟨k, hPower⟩ := hFresh.powerOfTwo
    rw [hSize, hFull, hEmpty] at hPower
    have hSmall : k < 3 := (Nat.pow_lt_pow_iff_right (by decide)).mp (show 2 ^ k < 2 ^ 3 by omega)
    obtain rfl | rfl | rfl : k = 0 ∨ k = 1 ∨ k = 2 := by omega
    all_goals exact absurd hPower (by decide)
  have hInside := h.inside
  rw [beginUpload_idle hUpload type data initReply (by omega)] at hInside
  generalize (uploadHeader type initReply data.length).get = header at *
  obtain ⟨-, hPutSize, -⟩ := hFresh.put (show header.length ≤ _ by omega)
  have hPpos : ((c.uploadBuffer data.length).put header).ppos = 6 := by
    rw [hFresh.put_ppos (by change 0 + _ < _; omega), hHeader]
    rfl
  have hPutFree : ((c.uploadBuffer data.length).put header).free = data.length := by
    rw [RingBuffer.free, hPutSize]
    change _ - (0 + header.length) = _
    omega
  have hLast : 6 + data.length ∈ List.range' (6 + 1) data.length :=
    List.mem_range'_1.mpr ⟨by omega, by omega⟩
  have hTick := hInside (6 + data.length)
  rw [tickIndices] at hTick
  dsimp only at hTick
  rw [fileRead_length, hPpos, hPutFree, Nat.sub_zero, Nat.min_self, hPutSize, hSize, hFull] at hTick
  have := hTick hLast
  omega

/-- An upload goes wrong for the files, other than maps, that fill the buffer together
with the header. -/
theorem upload_delivers_iff {c : Sender} (hWF : c.sendBuffer.WF) (hUnused : c.sendBuffer.used = 0)
    (hUpload : c.upload = none) (type : FileType) (data : Bytes) (initReply : UInt8) :
    c.Delivers type data initReply ↔
      type = .fileMap ∨ c.tempBufferSize data.length ≠ data.length + 6 := by
  constructor
  · intro h
    by_contra hBad
    obtain ⟨hType, hFull⟩ := not_or.mp hBad
    exact not_delivering_full hWF hUpload hType (not_not.mp hFull) _
      (h.2 [] [] _ List.nil_prefix rfl)
  · intro h
    have hLe := tempBufferSize_le hWF data.length
    have hRoom : (uploadHeader type initReply data.length).get.length + data.length <
        c.tempBufferSize data.length := by
      by_cases hType : type = .fileMap
      · rw [hType, uploadHeader_map]
        omega
      · rw [uploadHeader_other hType]
        have := h.resolve_left hType
        omega
    refine ⟨sendIndices_inside (uploadBuffer_wf hWF _) 0 _, fun events => ?_⟩
    have hStart := beginUpload_underway hWF hUpload hRoom
    exact (always_of_invariant (transfer_transferring hWF hUnused) (.inl ⟨0, hStart⟩) events).mono
      fun _ => Transferring.delivering

/-- A file of two bytes in the smallest buffer, as any file but a map and as a map. -/
theorem upload_delivers_smallest :
    ((Sender.new ⟨0, 0⟩ 1).Delivers .fileClass [7, 9] 4 ↔
      FileType.fileClass = .fileMap ∨ (Sender.new ⟨0, 0⟩ 1).tempBufferSize 2 ≠ 2 + 6) ∧
      (Sender.new ⟨0, 0⟩ 1).Delivers .fileMap [7, 9] 4 :=
  ⟨upload_delivers_iff (RingBuffer.empty_wf 0) rfl rfl _ _ _,
    (upload_delivers_iff (RingBuffer.empty_wf 0) rfl rfl _ _ _).mpr (.inl rfl)⟩

/-- The last byte of the file is lost, and another one is written in its place. -/
theorem upload_loses_last_byte :
    ¬(Sender.new ⟨0, 0⟩ 8).Delivers .fileClass [7, 9] 4 ∧
      ((run transfer ((Sender.new ⟨0, 0⟩ 8).beginUpload .fileClass (some [7, 9]) 4)
        [.tick, .doSend 8]).map fun c => c.written.drop 6) = some [7, 0] := by
  constructor
  · intro h
    have hSize : (6 + 2 : Nat) < 8 := (h.2 [] [] _ List.nil_prefix rfl).inside 8 (by decide)
    omega
  · decide

end Sender

end Etheos
