import Etheos.Packet.Builder
import Etheos.Packet.Codec

/-! The length bytes of an encoded packet. The encoder copies them out of the
wound packet, and winding may have moved them. -/
namespace Etheos

open PacketProcessor General.Runs

/-- The encoded packet is as long as the raw one, starts with the same length
bytes, and these announce the bytes that follow. -/
def FramingKept (proc : PacketProcessor) (raw : Bytes) : Prop :=
  let sent := encode proc raw
  sent.length = raw.length ∧ sent.take 2 = raw.take 2 ∧
    number (sent.getD 0 0) (sent.getD 1 0) 254 254 = sent.length - 2

/-- The run of multiples of the multiplier that reaches into the length bytes
begins in the way it ends. This is so in particular when the second length byte
is no multiple. -/
def HeaderMirrored (emulti : UInt8) (raw : Bytes) : Prop :=
  let reached := (raw.take 2).rtakeWhile (windable emulti)
  reached <+: (reached ++ (raw.drop 2).takeWhile (windable emulti)).reverse

/-- The announced size has the low two digits of the real one. -/
def SizeAnnounced (builder : PacketBuilder) : Prop :=
  (builder.data.length + 2 + builder.addSize) % 2 ^ 32 % max2 = builder.data.length + 2

namespace PacketProcessor

theorem encode_length (proc : PacketProcessor) {raw : Bytes} (h : 2 ≤ raw.length) :
    (encode proc raw).length = raw.length := by
  unfold encode
  split
  · rfl
  · simp
    omega

/-- Encoding keeps the length bytes exactly when winding does. -/
theorem encode_take_two_iff (proc : PacketProcessor) (hMulti : proc.emultiE ≠ 0) {raw : Bytes}
    (hRaw : ¬(raw.getD 2 0 = packetAInit ∧ raw.getD 3 0 = packetFInit))
    (hLength : 4 ≤ raw.length) :
    (encode proc raw).take 2 = raw.take 2 ↔ HeaderMirrored proc.emultiE raw := by
  obtain ⟨x, y, rest, rfl⟩ : ∃ x y rest, raw = x :: y :: rest := by
    match raw, hLength with
    | x :: y :: rest, _ => exact ⟨x, y, rest, rfl⟩
  rw [encode_eq proc hMulti hRaw hLength, List.take_left' (by simp), dickWinder_eq _ hMulti]
  exact reverseRuns_take_two (windable proc.emultiE) x y rest

end PacketProcessor

namespace PacketBuilder

theorem get_take_two (builder : PacketBuilder) :
    builder.get.take 2 =
      (eNumber ((builder.data.length + 2 + builder.addSize) % 2 ^ 32)).take 2 := by
  simp [get, eNumber]

/-- The length bytes announce what follows exactly when the announced size is
the real one up to the digits that are not sent. -/
theorem number_get_iff (builder : PacketBuilder) :
    number (builder.get.getD 0 0) (builder.get.getD 1 0) 254 254 = builder.get.length - 2 ↔
      SizeAnnounced builder := by
  have hLow := number_eNumber_low ((builder.data.length + 2 + builder.addSize) % 2 ^ 32)
  have hFirst : builder.get.getD 0 0 =
      (eNumber ((builder.data.length + 2 + builder.addSize) % 2 ^ 32)).getD 0 0 := by
    simp [get, eNumber]
  have hSecond : builder.get.getD 1 0 =
      (eNumber ((builder.data.length + 2 + builder.addSize) % 2 ^ 32)).getD 1 0 := by
    simp [get, eNumber]
  rw [hFirst, hSecond, hLow, get_length, SizeAnnounced]
  omega

/-- Only the INIT pair is exempt from the encoding. -/
theorem get_init_iff (builder : PacketBuilder) :
    (builder.get.getD 2 0 = packetAInit ∧ builder.get.getD 3 0 = packetFInit) ↔
      builder.id = pid packetFInit packetAInit := by
  have hBytes : builder.get.getD 2 0 = (builder.id >>> 8).toUInt8 ∧
      builder.get.getD 3 0 = (builder.id &&& 0xFF).toUInt8 := by
    simp [get, eNumber, epid]
  have hPair : pid packetFInit packetAInit = 0xFFFF := by decide
  rw [hBytes.1, hBytes.2, hPair]
  constructor
  · rintro ⟨hAction, hFamily⟩
    have hAction := congrArg UInt8.toNat hAction
    have hFamily := congrArg UInt8.toNat hFamily
    have hMask (n : Nat) : n &&& 255 = n % 256 := Nat.and_two_pow_sub_one_eq_mod n 8
    have hId := builder.id.toNat_lt
    apply UInt16.toNat_inj.mp
    simp [packetAInit, packetFInit, Nat.shiftRight_eq_div_pow, hMask] at hAction hFamily ⊢
    omega
  · intro h
    rw [h]
    decide

/-- The encoding keeps the framing of a packet that is not exempt from it
exactly when the run over the length bytes is mirrored and the packet announces
its own size. The server announces another size in INIT packets only. -/
theorem framingKept_iff (proc : PacketProcessor) (hMulti : proc.emultiE ≠ 0)
    (builder : PacketBuilder) (hId : builder.id ≠ pid packetFInit packetAInit) :
    FramingKept proc builder.get ↔
      HeaderMirrored proc.emultiE builder.get ∧ SizeAnnounced builder := by
  have hRaw := mt (get_init_iff builder).mp hId
  have hFour : 4 ≤ builder.get.length := by simp
  have hHeader := encode_take_two_iff proc hMulti hRaw hFour
  have hSize := number_get_iff builder
  have hEncodeLength : (encode proc builder.get).length = builder.get.length :=
    encode_length proc (by omega)
  have hSame (h : (encode proc builder.get).take 2 = builder.get.take 2) (i : Nat) (hi : i < 2) :
      (encode proc builder.get).getD i 0 = builder.get.getD i 0 := by
    have := congrArg (·.getD i 0) h
    simpa only [List.getD, List.getElem?_take, hi, ↓reduceIte] using this
  simp only [FramingKept, hEncodeLength, true_and]
  constructor
  · rintro ⟨hTake, hNumber⟩
    rw [hSame hTake 0 (by decide), hSame hTake 1 (by decide)] at hNumber
    exact ⟨hHeader.mp hTake, hSize.mp hNumber⟩
  · rintro ⟨hMirrored, hAnnounced⟩
    have hTake := hHeader.mpr hMirrored
    rw [hSame hTake 0 (by decide), hSame hTake 1 (by decide)]
    exact ⟨hTake, hSize.mpr hAnnounced⟩

theorem framingKept_iff_login_reply :
    FramingKept ⟨6, 7⟩ (addShort (new 4 3) 3).get ↔
      HeaderMirrored 6 (addShort (new 4 3) 3).get ∧ SizeAnnounced (addShort (new 4 3) 3) :=
  framingKept_iff ⟨6, 7⟩ (by decide) (addShort (new 4 3) 3) (by decide)

/-- A packet with 1274 bytes of payload has the length bytes 12 and 6, and the
multiplier 6 exchanges them. -/
theorem not_framingKept_exchanged :
    let builder := addString (new 5 5) (List.replicate 1274 1)
    builder.get.length < max2 ∧ builder.id ≠ pid packetFInit packetAInit ∧
      ¬FramingKept ⟨6, 7⟩ builder.get := by
  intro builder
  have hGet : builder.get = 12 :: 6 :: 5 :: 5 :: List.replicate 1274 1 := by
    have hLength : (List.replicate 1274 (1 : UInt8)).length = 1274 := List.length_replicate
    simp only [builder, addString, append, get, new, setID, List.nil_append, hLength]
    rfl
  have hId : builder.id ≠ pid packetFInit packetAInit := by
    simp only [builder, addString, append_id]
    decide
  refine ⟨?_, hId, fun h => ?_⟩
  · rw [get_length]
    change (List.replicate 1274 (1 : UInt8)).length + 4 < max2
    rw [List.length_replicate]
    decide
  have hHeader := (encode_take_two_iff ⟨6, 7⟩ (by decide) (mt (get_init_iff builder).mp hId)
    (by simp)).mp h.2.1
  rw [hGet] at hHeader
  simp only [HeaderMirrored, List.take_succ_cons, List.take_zero, List.drop_succ_cons,
    List.drop_zero] at hHeader
  have hRun : (5 :: 5 :: List.replicate 1274 (1 : UInt8)).takeWhile (windable 6) = [] :=
    List.takeWhile_cons_of_neg (by decide)
  rw [hRun] at hHeader
  revert hHeader
  decide

/-- Below 253 the second length byte is absent, and no multiplier that is handed
out divides its mark. -/
theorem headerMirrored_of_short {emulti : UInt8} (hMulti : 6 ≤ emulti ∧ emulti ≤ 12)
    (builder : PacketBuilder) (h : builder.data.length + 2 + builder.addSize < 253) :
    HeaderMirrored emulti builder.get := by
  have hMark : windable emulti 254 = false := by
    obtain ⟨hFrom, hTo⟩ := hMulti
    rw [UInt8.le_iff_toNat_le] at hFrom hTo
    simp at hFrom hTo
    have hEmulti : emulti.toNat = 6 ∨ emulti.toNat = 7 ∨ emulti.toNat = 8 ∨ emulti.toNat = 9 ∨
      emulti.toNat = 10 ∨ emulti.toNat = 11 ∨ emulti.toNat = 12 := by omega
    rcases hEmulti with h | h | h | h | h | h | h
    all_goals
      rw [← UInt8.ofNat_toNat (x := emulti), h]
      decide
  have hMod : (builder.data.length + 2 + builder.addSize) % 2 ^ 32 < max1 := by
    simp only [max1]
    omega
  have hHeader : ∃ x, builder.get.take 2 = [x, 254] := by
    rw [get_take_two, eNumber_digits, if_neg (by omega)]
    exact ⟨_, rfl⟩
  obtain ⟨x, hx⟩ := hHeader
  simp [HeaderMirrored, hx, List.rtakeWhile, hMark]

end PacketBuilder

end Etheos
