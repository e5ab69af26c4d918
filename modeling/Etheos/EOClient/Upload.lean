import Etheos.General.Run
import Etheos.Packet.Builder
import Etheos.Socket.Client

/-! The sending side of a connection, and the upload of files. -/
namespace Etheos

open PacketProcessor General

inductive FileType
  | fileMap | fileItem | fileNpc | fileSpell | fileClass
  deriving Repr, DecidableEq

/-- The file behind `upload_fh`, with `upload_type` and `upload_pos`. -/
structure OpenFile where
  type : FileType
  pos : Nat
  data : Bytes
  deriving Repr, DecidableEq

/-- `written` are the bytes that the socket has taken. The program does not keep
them, nor `called`, the bytes that the calls so far stand for. -/
structure Sender where
  processor : PacketProcessor
  sendBuffer : RingBuffer UInt8
  sendBuffer2 : RingBuffer UInt8
  upload : Option OpenFile
  closed : Bool
  written : Bytes
  called : Bytes
  deriving DecidableEq

namespace Sender

/-- A connection that has just been accepted. -/
def new (processor : PacketProcessor) (size : Nat) : Sender where
  processor := processor
  sendBuffer := .empty size
  sendBuffer2 := ⟨[], 0, 0, 0⟩
  upload := none
  closed := false
  written := []
  called := []

/-- `Client::Send`. -/
def sendRaw (c : Sender) (data : Bytes) : Sender :=
  if c.sendBuffer.free < data.length then { c with closed := true }
  else { c with sendBuffer := c.sendBuffer.put data }

/-- While a file is uploaded, packets are kept in the other buffer. -/
def send (c : Sender) (builder : PacketBuilder) : Sender :=
  let data := c.processor.encode builder.get
  let c := { c with called := c.called ++ data }
  match c.upload with
  | some _ =>
      if c.sendBuffer2.free < data.length then { c with closed := true }
      else { c with sendBuffer2 := c.sendBuffer2.put data }
  | none => c.sendRaw data

/-- The loop that doubles a size until it is large enough. The first argument
bounds the number of passes. -/
def enlarge (enough : Nat) : Nat → Nat → Nat
  | 0, size => size
  | passes + 1, size => if size < enough then enlarge enough passes (size * 2) else size

/-- `temp_buffer_size`. -/
def tempBufferSize (c : Sender) (uploadSize : Nat) : Nat :=
  enlarge (uploadSize + 6) (uploadSize + 6) c.sendBuffer.size

/-- `std::string::resize`. -/
def resize (cells : Bytes) (size : Nat) : Bytes :=
  (cells ++ List.replicate (size - cells.length) 0).take size

def uploadHeader (type : FileType) (initReply : UInt8) (uploadSize : Nat) : PacketBuilder :=
  let builder := (PacketBuilder.new packetFInit packetAInit).addChar initReply
  let builder := if type ≠ .fileMap then builder.addChar 1 else builder
  builder.withAddSize uploadSize

def swap (c : Sender) : Sender :=
  { c with sendBuffer := c.sendBuffer2, sendBuffer2 := c.sendBuffer }

/-- `Upload` throws while a file is uploaded, and does nothing where the file
cannot be opened. -/
def beginUpload (c : Sender) (type : FileType) (file : Option Bytes) (initReply : UInt8) : Sender :=
  match c.upload, file with
  | none, some data =>
      let header := (uploadHeader type initReply data.length).get
      let cells := resize c.sendBuffer2.cells (c.tempBufferSize data.length)
      let c := { c with upload := some ⟨type, 0, data⟩, sendBuffer2 := ⟨cells, 0, 0, 0⟩ }
      let c := { c.swap with called := c.called ++ header ++ data }
      c.sendRaw header
  | _, _ => c

/-- Player killing is switched on in what is read of a map. -/
def enablePK (pos : Nat) (data : Bytes) : Bytes :=
  let last := pos + data.length
  let data := if pos ≤ 0x03 ∧ 0x03 < last then data.set (0x03 - pos) 0xFF else data
  let data := if pos ≤ 0x03 ∧ 0x04 < last then data.set (0x04 - pos) 0x01 else data
  if pos ≤ 0x1F ∧ 0x1F < last then data.set (0x1F - pos) 0x04 else data

/-- What `Tick` reads of the file. -/
def fileRead (c : Sender) (file : OpenFile) : Bytes :=
  (file.data.drop file.pos).take (min (file.data.length - file.pos) c.sendBuffer.free)

/-- `Tick` while a file is uploaded, with `globalPK` on the map of the player or
not. -/
def tick (c : Sender) (globalPK : Bool) : Sender :=
  match c.upload with
  | none => c
  | some file =>
      if min (file.data.length - file.pos) c.sendBuffer.free ≠ 0 then
        let data := c.fileRead file
        let data := if file.type = .fileMap ∧ globalPK then enablePK file.pos data else data
        { c with
          sendBuffer := c.sendBuffer.extend data
          upload := some { file with pos := file.pos + data.length } }
      else if file.pos = file.data.length ∧ c.sendBuffer.free = c.sendBuffer.size then
        let c := { c with upload := none }.swap
        { c with sendBuffer2 := { c.sendBuffer2 with cells := [] } }
      else c

/-- The socket takes some of the bytes that it is given. -/
def doSend (c : Sender) (written : Nat) : Option Sender :=
  let r := c.sendBuffer
  let toSend := min r.used Client.blockSize
  let buf := (RingBuffer.drain r.mask r.cells r.gpos toSend).1
  if written ≤ toSend then
    some { c with
      sendBuffer := { r with gpos := (r.gpos + written) &&& r.mask, used := r.used - written }
      written := c.written ++ buf.take written }
  else none

end Sender

inductive SendEvent
  | send (builder : PacketBuilder)
  | upload (type : FileType) (file : Option Bytes) (initReply : UInt8)
  | doSend (written : Nat)
  | tick (globalPK : Bool)
  deriving DecidableEq

namespace Sender

def step (c : Sender) : SendEvent → Option Sender
  | .send builder => some (c.send builder)
  | .upload type file initReply => some (c.beginUpload type file initReply)
  | .doSend written => c.doSend written
  | .tick globalPK => some (c.tick globalPK)

/-- The bytes that are written are those of the calls, in the order of the calls.
None is left out once all buffers are empty. -/
def Ordered (c : Sender) : Prop :=
  c.written <+: c.called ∧ (c.upload = none → c.sendBuffer.used = 0 → c.written = c.called)

/-- The steps that the order may be lost in. The first case is the one of a buffer
that runs over. -/
def Disorders (c : Sender) : SendEvent → Prop
  | .send builder =>
      (match c.upload with | some _ => c.sendBuffer2.free | none => c.sendBuffer.free) <
        (c.processor.encode builder.get).length
  | .upload type (some data) initReply => c.upload = none ∧
      (c.sendBuffer.used ≠ 0 ∨
        c.tempBufferSize data.length ≤
          (uploadHeader type initReply data.length).get.length + data.length)
  | .tick true =>
      match c.upload with
      | some file => file.type = .fileMap ∧ enablePK file.pos (c.fileRead file) ≠ c.fileRead file
      | none => False
  | _ => False

instance (c : Sender) : (event : SendEvent) → Decidable (c.Disorders event)
  | .send _ => inferInstanceAs (Decidable (_ < _))
  | .upload _ (some _) _ => inferInstanceAs (Decidable (_ ∧ _))
  | .upload _ none _ => isFalse id
  | .doSend _ => isFalse id
  | .tick false => isFalse id
  | .tick true =>
      match h : c.upload with
      | some file =>
          decidable_of_iff (file.type = .fileMap ∧ enablePK file.pos (c.fileRead file) ≠ c.fileRead file)
            (by rw [Disorders, h])
      | none => isFalse (by rw [Disorders, h]; exact id)

section Sizes

theorem enlarge_spec (enough passes size : Nat) :
    (∃ k, enlarge enough passes size = size * 2 ^ k) ∧
      (0 < size → enough ≤ size + passes → enough ≤ enlarge enough passes size) := by
  induction passes generalizing size with
  | zero => exact ⟨⟨0, (Nat.mul_one size).symm⟩, fun _ h => h⟩
  | succ passes ih =>
      unfold enlarge
      split
      case isTrue hSmall =>
        obtain ⟨⟨k, hPower⟩, hEnough⟩ := ih (size * 2)
        refine ⟨⟨k + 1, ?_⟩, fun hPos h => hEnough (by omega) (by omega)⟩
        rw [hPower, Nat.mul_assoc, Nat.pow_succ, Nat.mul_comm 2]
      case isFalse hLarge => exact ⟨⟨0, (Nat.mul_one size).symm⟩, fun _ _ => Nat.not_lt.mp hLarge⟩

theorem resize_length (cells : Bytes) (size : Nat) : (resize cells size).length = size := by
  rw [resize, List.length_take, List.length_append, List.length_replicate]
  omega

end Sizes

/-- Nothing has been lost, and what has not been written yet is kept in the order of
the calls: the buffer, the rest of the file, and the other buffer. -/
structure Sound (c : Sender) : Prop where
  live : c.sendBuffer.WF
  idle : c.upload = none → c.written ++ c.sendBuffer.contents = c.called
  busy : ∀ file, c.upload = some file → c.sendBuffer2.WF ∧ file.pos ≤ file.data.length ∧
    c.sendBuffer.ppos + (file.data.length - file.pos) < c.sendBuffer.size ∧
      c.written ++ c.sendBuffer.contents ++ file.data.drop file.pos ++ c.sendBuffer2.contents = c.called

theorem Sound.ordered {c : Sender} (h : c.Sound) : c.Ordered := by
  cases hUpload : c.upload with
  | none =>
      have hStream := h.idle hUpload
      refine ⟨⟨_, hStream⟩, fun _ hUsed => ?_⟩
      rw [RingBuffer.contents_of_unused hUsed, List.append_nil] at hStream
      exact hStream
  | some file =>
      obtain ⟨-, -, -, hStream⟩ := h.busy file hUpload
      rw [List.append_assoc, List.append_assoc] at hStream
      refine ⟨⟨_, hStream⟩, fun hNone => ?_⟩
      rw [hUpload] at hNone
      cases hNone

theorem new_sound (processor : PacketProcessor) (k : Nat) : (new processor (2 ^ k)).Sound where
  live := RingBuffer.empty_wf k
  idle := fun _ => rfl
  busy := fun file hFile => by cases hFile

section Steps

variable {c : Sender}

theorem send_idle (hUpload : c.upload = none) {builder : PacketBuilder}
    (hFits : (c.processor.encode builder.get).length ≤ c.sendBuffer.free) :
    c.send builder = { c with
      sendBuffer := c.sendBuffer.put (c.processor.encode builder.get)
      called := c.called ++ c.processor.encode builder.get } := by
  unfold send sendRaw
  dsimp only
  rw [hUpload]
  exact if_neg (Nat.not_lt.mpr hFits)

theorem send_busy {file : OpenFile} (hUpload : c.upload = some file) {builder : PacketBuilder}
    (hFits : (c.processor.encode builder.get).length ≤ c.sendBuffer2.free) :
    c.send builder = { c with
      sendBuffer2 := c.sendBuffer2.put (c.processor.encode builder.get)
      called := c.called ++ c.processor.encode builder.get } := by
  unfold send
  dsimp only
  rw [hUpload]
  exact if_neg (Nat.not_lt.mpr hFits)

theorem send_sound (h : c.Sound) {builder : PacketBuilder} (hGood : ¬c.Disorders (.send builder)) :
    (c.send builder).Sound := by
  unfold Disorders at hGood
  cases hUpload : c.upload with
  | none =>
      rw [hUpload] at hGood
      have hFits := Nat.not_lt.mp hGood
      obtain ⟨hWF, -, hContents⟩ := h.live.put hFits
      rw [send_idle hUpload hFits]
      refine ⟨hWF, fun _ => ?_, fun file hFile => ?_⟩
      · dsimp only
        rw [hContents, ← h.idle hUpload, List.append_assoc]
      · cases hUpload.symm.trans hFile
  | some file =>
      rw [hUpload] at hGood
      have hFits := Nat.not_lt.mp hGood
      obtain ⟨hWF2, hPos, hRoom, hStream⟩ := h.busy file hUpload
      obtain ⟨hWF, -, hContents⟩ := hWF2.put hFits
      rw [send_busy hUpload hFits]
      refine ⟨h.live, fun hNone => ?_, fun other hOther => ?_⟩
      · cases hUpload.symm.trans hNone
      · cases hUpload.symm.trans hOther
        refine ⟨hWF, hPos, hRoom, ?_⟩
        dsimp only
        rw [hContents, ← hStream]
        simp only [List.append_assoc]

/-- What the socket takes are the oldest bytes of the buffer. -/
theorem doSend_take (h : c.sendBuffer.WF) {written : Nat} {next : Sender}
    (hStep : c.doSend written = some next) :
    written ≤ c.sendBuffer.used ∧ next = { c with
      sendBuffer := (c.sendBuffer.take written).2
      written := c.written ++ (c.sendBuffer.take written).1 } := by
  unfold doSend at hStep
  dsimp only at hStep
  split at hStep
  case isFalse => cases hStep
  case isTrue hWritten =>
    cases hStep
    have hUsed : min c.sendBuffer.used Client.blockSize ≤ c.sendBuffer.used := Nat.min_le_left _ _
    have hLe : written ≤ c.sendBuffer.used := Nat.le_trans hWritten hUsed
    obtain ⟨hBuf, -⟩ := h.drain_contents hUsed
    have hTaken : { c.sendBuffer with
        gpos := (c.sendBuffer.gpos + written) &&& c.sendBuffer.mask
        used := c.sendBuffer.used - written } = (c.sendBuffer.take written).2 := by
      unfold RingBuffer.take
      rw [Nat.min_eq_left hLe, (h.drain_contents hLe).2.symm]
    refine ⟨hLe, ?_⟩
    rw [hTaken, hBuf, List.take_take, Nat.min_eq_left hWritten, (h.take written).1]

theorem doSend_sound (h : c.Sound) {written : Nat} {next : Sender} (hStep : c.doSend written = some next) :
    next.Sound := by
  obtain ⟨-, rfl⟩ := doSend_take h.live hStep
  obtain ⟨hOut, hWF, hSize, hRest⟩ := h.live.take written
  have hSplit : (c.sendBuffer.take written).1 ++ (c.sendBuffer.take written).2.contents =
      c.sendBuffer.contents := by
    rw [hOut, hRest, List.take_append_drop]
  refine ⟨hWF, fun hNone => ?_, fun file hFile => ?_⟩
  · dsimp only
    rw [List.append_assoc, hSplit, h.idle hNone]
  · obtain ⟨hWF2, hPos, hRoom, hStream⟩ := h.busy file hFile
    refine ⟨hWF2, hPos, ?_, ?_⟩
    · dsimp only
      rw [hSize]
      exact hRoom
    · dsimp only
      rw [List.append_assoc c.written, hSplit, hStream]

/-- The buffer that an upload starts with. -/
def uploadBuffer (c : Sender) (uploadSize : Nat) : RingBuffer UInt8 :=
  ⟨resize c.sendBuffer2.cells (c.tempBufferSize uploadSize), 0, 0, 0⟩

theorem uploadBuffer_size (c : Sender) (uploadSize : Nat) :
    (c.uploadBuffer uploadSize).size = c.tempBufferSize uploadSize := resize_length _ _

theorem uploadBuffer_wf (h : c.sendBuffer.WF) (uploadSize : Nat) : (c.uploadBuffer uploadSize).WF := by
  obtain ⟨⟨k, hPower⟩, -⟩ := enlarge_spec (uploadSize + 6) (uploadSize + 6) c.sendBuffer.size
  obtain ⟨j, hSize⟩ := h.powerOfTwo
  have hWhole : (c.uploadBuffer uploadSize).size = 2 ^ (j + k) := by
    rw [uploadBuffer_size, tempBufferSize, hPower, hSize, Nat.pow_add]
  refine ⟨⟨j + k, hWhole⟩, Nat.zero_le _, ?_, (Nat.zero_mod _).symm⟩
  rw [hWhole]
  exact Nat.two_pow_pos _

theorem beginUpload_idle (hUpload : c.upload = none) (type : FileType) (data : Bytes)
    (initReply : UInt8)
    (hFits : (uploadHeader type initReply data.length).get.length ≤ (c.uploadBuffer data.length).free) :
    c.beginUpload type (some data) initReply = { c with
      sendBuffer := (c.uploadBuffer data.length).put (uploadHeader type initReply data.length).get
      sendBuffer2 := c.sendBuffer
      upload := some ⟨type, 0, data⟩
      called := c.called ++ (uploadHeader type initReply data.length).get ++ data } := by
  unfold beginUpload
  rw [hUpload]
  exact if_neg (Nat.not_lt.mpr hFits)

/-- The header is the first thing in the fresh buffer. -/
theorem beginUpload_sound (h : c.Sound) {type : FileType} {file : Option Bytes} {initReply : UInt8}
    (hGood : ¬c.Disorders (.upload type file initReply)) :
    (c.beginUpload type file initReply).Sound := by
  cases hUpload : c.upload with
  | some open' =>
      have hSame : c.beginUpload type file initReply = c := by
        unfold beginUpload
        rw [hUpload]
      rw [hSame]
      exact h
  | none =>
      cases file with
      | none =>
          have hSame : c.beginUpload type none initReply = c := by
            unfold beginUpload
            rw [hUpload]
          rw [hSame]
          exact h
      | some data =>
          have hRoom : c.sendBuffer.used = 0 ∧
              (uploadHeader type initReply data.length).get.length + data.length <
                c.tempBufferSize data.length := by
            have hBoth := not_or.mp (not_and.mp hGood hUpload)
            exact ⟨not_not.mp hBoth.1, Nat.not_le.mp hBoth.2⟩
          obtain ⟨hUnused, hRoom⟩ := hRoom
          have hSize := c.uploadBuffer_size data.length
          have hFits : (uploadHeader type initReply data.length).get.length ≤
              (c.uploadBuffer data.length).free := by
            change _ ≤ (c.uploadBuffer data.length).size - 0
            omega
          obtain ⟨hWF, hPutSize, hContents⟩ := (uploadBuffer_wf h.live data.length).put hFits
          have hStream := h.idle hUpload
          rw [RingBuffer.contents_of_unused hUnused, List.append_nil] at hStream
          rw [beginUpload_idle hUpload type data initReply hFits]
          generalize (uploadHeader type initReply data.length).get = header at *
          refine ⟨hWF, fun hNone => ?_, fun other hOther => ?_⟩
          · cases hNone
          · cases hOther
            have hPpos : ((c.uploadBuffer data.length).put header).ppos = header.length := by
              rw [hWF.ppos_eq, hPutSize, hSize]
              change (0 + (0 + header.length)) % _ = _
              rw [Nat.zero_add, Nat.zero_add, Nat.mod_eq_of_lt (by omega)]
            refine ⟨h.live, Nat.zero_le _, ?_, ?_⟩
            · dsimp only
              rw [hPpos, hPutSize, hSize]
              omega
            · dsimp only
              rw [hContents, RingBuffer.contents_of_unused rfl, RingBuffer.contents_of_unused hUnused,
                hStream]
              simp only [List.nil_append, List.append_nil, List.drop_zero]

theorem fileRead_length (c : Sender) (file : OpenFile) :
    (c.fileRead file).length = min (file.data.length - file.pos) c.sendBuffer.free := by
  rw [fileRead, List.length_take, List.length_drop, Nat.min_assoc, Nat.min_comm c.sendBuffer.free,
    ← Nat.min_assoc, Nat.min_self]

theorem fileRead_append (c : Sender) (file : OpenFile) :
    c.fileRead file ++ file.data.drop (file.pos + (c.fileRead file).length) =
      file.data.drop file.pos := by
  rw [fileRead_length, fileRead, ← List.drop_drop, List.take_append_drop]

theorem tick_idle (hUpload : c.upload = none) (globalPK : Bool) : c.tick globalPK = c := by
  unfold tick
  rw [hUpload]

/-- What a tick can do while a file is uploaded: read on, end the upload, or wait until all
has been written. -/
theorem tick_cases {file : OpenFile} (hUpload : c.upload = some file) :
    ((c.fileRead file).length ≠ 0 ∧ c.tick false = { c with
      sendBuffer := c.sendBuffer.extend (c.fileRead file)
      upload := some { file with pos := file.pos + (c.fileRead file).length } }) ∨
    (file.pos = file.data.length ∧ c.sendBuffer.free = c.sendBuffer.size ∧ c.tick false = { c with
      sendBuffer := c.sendBuffer2
      sendBuffer2 := { c.sendBuffer with cells := [] }
      upload := none }) ∨
    ((c.fileRead file).length = 0 ∧
      ¬(file.pos = file.data.length ∧ c.sendBuffer.free = c.sendBuffer.size) ∧ c.tick false = c) := by
  have hPlain : (if file.type = .fileMap ∧ false then enablePK file.pos (c.fileRead file)
      else c.fileRead file) = c.fileRead file := if_neg (by simp)
  have hLength := fileRead_length c file
  unfold tick
  rw [hUpload]
  dsimp only
  rw [hPlain]
  split
  case isTrue hMore => exact .inl ⟨by omega, rfl⟩
  case isFalse hAll =>
    split
    case isTrue hDone => exact .inr (.inl ⟨hDone.1, hDone.2, rfl⟩)
    case isFalse hWait => exact .inr (.inr ⟨by omega, hWait, rfl⟩)

/-- Where the map is not changed, it does not matter whether player killing is on. -/
theorem tick_plain {globalPK : Bool} (hGood : ¬c.Disorders (.tick globalPK)) :
    c.tick globalPK = c.tick false := by
  cases hUpload : c.upload with
  | none => rw [tick_idle hUpload, tick_idle hUpload]
  | some file =>
      cases globalPK with
      | false => rfl
      | true =>
          have hSame (hMap : file.type = .fileMap) :
              enablePK file.pos (c.fileRead file) = c.fileRead file := by
            by_contra hChanged
            rw [Disorders, hUpload] at hGood
            exact hGood ⟨hMap, hChanged⟩
          unfold tick
          rw [hUpload]
          by_cases hMap : file.type = .fileMap
          · simp [hMap, hSame hMap]
          · simp [hMap]

/-- The file is read into the buffer behind what is there. -/
theorem tick_sound (h : c.Sound) {globalPK : Bool} (hGood : ¬c.Disorders (.tick globalPK)) :
    (c.tick globalPK).Sound := by
  rw [tick_plain hGood]
  cases hUpload : c.upload with
  | none => exact (tick_idle hUpload false).symm ▸ h
  | some file =>
      obtain ⟨hWF2, hPos, hRoom, hStream⟩ := h.busy file hUpload
      have hLength := fileRead_length c file
      obtain ⟨-, hTick⟩ | ⟨hAll, hSent, hTick⟩ | ⟨-, -, hTick⟩ := tick_cases hUpload
      case inl =>
        have hFits : (c.fileRead file).length ≤ c.sendBuffer.free := by omega
        have hPlace : c.sendBuffer.ppos + (c.fileRead file).length < c.sendBuffer.size := by omega
        obtain ⟨hWF, hSize, hContents⟩ := h.live.put hFits
        rw [hTick, h.live.extend_eq_put hPlace]
        refine ⟨hWF, fun hNone => ?_, fun other hOther => ?_⟩
        · cases hNone
        cases hOther
        refine ⟨hWF2, ?_, ?_, ?_⟩
        · dsimp only
          omega
        · dsimp only
          rw [h.live.put_ppos hPlace, hSize]
          omega
        · dsimp only
          rw [hContents, ← hStream, ← fileRead_append c file]
          simp only [List.append_assoc]
      case inr.inl =>
        have hUnused : c.sendBuffer.used = 0 := by
          have hUsed := h.live.used_le
          unfold RingBuffer.free at hSent
          omega
        rw [hTick]
        refine ⟨hWF2, fun _ => ?_, fun other hOther => by cases hOther⟩
        rw [RingBuffer.contents_of_unused hUnused, hAll, List.drop_length, List.append_nil,
          List.append_nil] at hStream
        exact hStream
      case inr.inr => exact hTick.symm ▸ h

end Steps

theorem step_sound {c next : Sender} {event : SendEvent} (h : c.Sound) (hGood : ¬c.Disorders event)
    (hStep : c.step event = some next) : next.Sound := by
  cases event with
  | send builder =>
      cases hStep
      exact send_sound h hGood
  | upload type file initReply =>
      cases hStep
      exact beginUpload_sound h hGood
  | doSend written => exact doSend_sound h hStep
  | tick globalPK =>
      cases hStep
      exact tick_sound h hGood

/-- In a run in which every upload starts with an empty buffer, the bytes are written in
the order of the calls. -/
theorem ordered_of_avoids (processor : PacketProcessor) (k : Nat) {events : List SendEvent}
    (hAvoids : Avoids step Disorders (new processor (2 ^ k)) events) :
    Always step Ordered (new processor (2 ^ k)) events :=
  (always_of_avoids (fun _ _ _ h hGood hStep => step_sound h hGood hStep) (new_sound processor k)
    hAvoids).mono fun _ => Sound.ordered

/-- A packet, a map of three bytes, and another packet meanwhile. -/
def smallTransfer : List SendEvent :=
  [.send (PacketBuilder.new 1 1), .doSend 4, .upload .fileMap (some [7, 8, 9]) 4, .tick false,
    .send (PacketBuilder.new 2 2), .doSend 8, .tick true, .doSend 3]

theorem ordered_of_avoids_smallTransfer :
    Always step Ordered (new ⟨0, 0⟩ (2 ^ 4)) smallTransfer :=
  ordered_of_avoids ⟨0, 0⟩ 4 (by decide)

/-- The packet has not been written when the upload begins. -/
def hastyTransfer : List SendEvent :=
  [.send (PacketBuilder.new 1 1), .upload .fileMap (some [7, 8, 9]) 4, .doSend 5]

/-- No buffer runs over, and the header is written before the packet. -/
theorem upload_overtakes_packet :
    ∃ c, run step (new ⟨0, 0⟩ (2 ^ 4)) hastyTransfer = some c ∧ c.closed = false ∧ ¬c.Ordered :=
  ⟨_, rfl, rfl, fun h => absurd h.1 (by decide)⟩

end Sender

end Etheos
