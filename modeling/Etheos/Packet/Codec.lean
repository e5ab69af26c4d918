import Etheos.Packet.Processor

/-! The body encoding and its inverse. Both directions visit the same places
of the body: the even ones upwards, then the odd ones downwards. -/
namespace Etheos.PacketProcessor

open General.Runs General.Scatter

/-- The places of a body of length `n` in the order of the two index loops. -/
def places (n : Nat) : List Nat := upIndices 0 n ++ downIndices 0 (n - 1 - n % 2)

theorem mem_upIndices {i n : Nat} : i ∈ upIndices 0 n ↔ i < n ∧ i % 2 = 0 := by
  simp only [upIndices, List.mem_range', Nat.zero_add, Nat.sub_zero]
  constructor
  · rintro ⟨k, hk, rfl⟩
    omega
  · rintro ⟨hi, hEven⟩
    exact ⟨i / 2, by omega, by omega⟩

theorem mem_downIndices {i k : Nat} : i ∈ downIndices 0 k ↔ i ≤ k ∧ i % 2 = k % 2 := by
  induction k using Nat.twoStepInduction with
  | zero => simp [downIndices]; omega
  | one => simp [downIndices]; omega
  | more k ih _ =>
      simp only [downIndices, Nat.zero_le, ↓reduceIte, List.mem_cons, ih]
      omega

theorem downIndices_nodup (k : Nat) : (downIndices 0 k).Nodup := by
  induction k using Nat.twoStepInduction with
  | zero => simp [downIndices]
  | one => simp [downIndices]
  | more k ih _ =>
      simp only [downIndices, Nat.zero_le, ↓reduceIte, List.nodup_cons]
      refine ⟨fun h => ?_, ih⟩
      have := (mem_downIndices.mp h).1
      omega

theorem downIndices_length (k : Nat) : (downIndices 0 k).length = k / 2 + 1 := by
  induction k using Nat.twoStepInduction with
  | zero => simp [downIndices]
  | one => simp [downIndices]
  | more k ih _ =>
      simp only [downIndices, Nat.zero_le, ↓reduceIte, List.length_cons, ih]
      omega

/-- Two places further up, the downward loop stops two places earlier. -/
theorem downIndices_shift (k : Nat) :
    downIndices 2 (k + 2) = (downIndices 0 k).map (· + 2) := by
  induction k using Nat.twoStepInduction with
  | zero => simp [downIndices]
  | one => simp [downIndices]
  | more k ih _ => simpa [downIndices] using ih

theorem upIndices_shift (n : Nat) : upIndices 2 (n + 2) = (upIndices 0 n).map (· + 2) := by
  have hCount : (n + 2 + 1 - 2) / 2 = (n + 1) / 2 := by omega
  simp only [upIndices, hCount, Nat.sub_zero]
  simpa [Nat.add_comm] using (List.map_add_range' (a := 2) 0 ((n + 1) / 2) 2).symm

theorem mem_places {i n : Nat} (hn : 2 ≤ n) : i ∈ places n ↔ i < n := by
  simp only [places, List.mem_append, mem_upIndices, mem_downIndices]
  omega

theorem places_nodup {n : Nat} (hn : 2 ≤ n) : (places n).Nodup := by
  refine List.nodup_append.mpr
    ⟨List.nodup_range' 2, downIndices_nodup _, fun i hi j hj hij => ?_⟩
  have hEven := (mem_upIndices.mp hi).2
  have hOdd := (mem_downIndices.mp hj).2
  omega

theorem places_length {n : Nat} (hn : 2 ≤ n) : (places n).length = n := by
  simp only [places, upIndices, List.length_append, List.length_range', downIndices_length]
  omega

/-- What both directions do to a single byte, apart from the fix-up. -/
def flip (c : UInt8) : UInt8 := c ^^^ 0x80

theorem flip_flip (c : UInt8) : flip (flip c) = c := by
  rw [flip, flip, UInt8.xor_assoc, UInt8.xor_self, UInt8.xor_zero]

theorem flip_eq_high (c : UInt8) : flip c = 128 ↔ c = 0 := by
  constructor
  · intro h
    rw [← flip_flip c, h]
    decide
  · rintro rfl
    decide

theorem flip_eq_zero (c : UInt8) : flip c = 0 ↔ c = 128 := by
  constructor
  · intro h
    rw [← flip_flip c, h]
    decide
  · rintro rfl
    decide

/-- The fix-up keeps 0 and 128 themselves, and is undone by a second one. -/
theorem swapZero_flip_swapZero_flip (c : UInt8) :
    swapZero (flip (swapZero (flip c))) = c := by
  by_cases hZero : c = 0
  · subst hZero; decide
  · by_cases hHigh : c = 128
    · subst hHigh; decide
    · have hKeep : swapZero (flip c) = flip c := by
        simp [swapZero, flip_eq_high, flip_eq_zero, hZero, hHigh]
      rw [hKeep, flip_flip]
      simp [swapZero, hZero, hHigh]

/-- Where the second fix-up is left out, only 0 and 128 are lost. -/
theorem flip_swapZero_flip {c : UInt8} (hZero : c ≠ 0) (hHigh : c ≠ 128) :
    flip (swapZero (flip c)) = c := by
  have hKeep : swapZero (flip c) = flip c := by
    simp [swapZero, flip_eq_high, flip_eq_zero, hZero, hHigh]
  rw [hKeep, flip_flip]

/-- The encoded packet: the wound length bytes, and the wound body spread over
its places. -/
theorem encode_eq (proc : PacketProcessor) {rawstr : Bytes} (hMulti : proc.emultiE ≠ 0)
    (hRaw : ¬(rawstr.getD 2 0 = packetAInit ∧ rawstr.getD 3 0 = packetFInit))
    (hLength : 4 ≤ rawstr.length) :
    encode proc rawstr =
      (dickWinder rawstr proc.emultiE).take 2 ++
        (scatter (List.replicate (rawstr.length - 2) 0) (places (rawstr.length - 2))
          (((dickWinder rawstr proc.emultiE).drop 2).map flip)).map swapZero := by
  obtain ⟨n, hn⟩ : ∃ n, rawstr.length = n + 2 := ⟨rawstr.length - 2, by omega⟩
  have hFront : ((dickWinder rawstr proc.emultiE).take 2).length = 2 := by simp; omega
  have hLast : (if (n + 2) % 2 = 1 then n + 2 - 1 - 1 else n + 2 - 1) = n - 1 - n % 2 + 2 := by
    split <;> omega
  have hPlaces : upIndices 2 (n + 2) ++ downIndices 2 (n - 1 - n % 2 + 2) =
      (places n).map (· + 2) := by
    rw [upIndices_shift, downIndices_shift, places, List.map_append]
  have hScatter := scatter_append ((dickWinder rawstr proc.emultiE).take 2)
    (List.replicate n 0) (places n) (((dickWinder rawstr proc.emultiE).drop 2).map flip)
  rw [hFront] at hScatter
  have hOpen : ¬(proc.emultiE = 0 ∨
      (rawstr.getD 2 0 = packetAInit ∧ rawstr.getD 3 0 = packetFInit)) := by
    rintro (h | h)
    · exact hMulti h
    · exact hRaw h
  simp only [encode, if_neg hOpen, dickWinder_length, hn, Nat.add_sub_cancel, hLast, hPlaces]
  change (scatter _ _ (((dickWinder rawstr proc.emultiE).drop 2).map flip)).take 2 ++
    ((scatter _ _ (((dickWinder rawstr proc.emultiE).drop 2).map flip)).drop 2).map swapZero = _
  rw [hScatter, List.take_left' hFront, List.drop_left' hFront]

theorem decode_eq (proc : PacketProcessor) {str : Bytes} (hMulti : proc.emultiD ≠ 0)
    (hStr : ¬(str.getD 0 0 = packetAInit ∧ str.getD 1 0 = packetFInit))
    (hLength : 2 ≤ str.length) :
    decode proc str =
      dickWinder
        (((gather 0 str (places str.length)).map flip).take 2 ++
          (((gather 0 str (places str.length)).map flip).drop 2).map swapZero)
        proc.emultiD := by
  have hUp : (upIndices 0 str.length).length = (str.length + 1) / 2 := by
    simp [upIndices]
  have hLast : (if str.length % 2 = 1 then 2 * ((str.length + 1) / 2) - 1 - 2
      else 2 * ((str.length + 1) / 2) - 1) = str.length - 1 - str.length % 2 := by
    split <;> omega
  have hOpen : ¬(proc.emultiD = 0 ∨
      (str.getD 0 0 = packetAInit ∧ str.getD 1 0 = packetFInit)) := by
    rintro (h | h)
    · exact hMulti h
    · exact hStr h
  simp only [decode, if_neg hOpen, hUp, hLast]
  rfl

/-- The body is wound on its own when no run crosses from the length bytes. -/
theorem dickWinder_drop_two {emulti : UInt8} (hMulti : emulti ≠ 0) {str : Bytes}
    (hLength : 3 ≤ str.length)
    (hHeader : ¬(str.getD 1 0 % emulti = 0 ∧ str.getD 2 0 % emulti = 0)) :
    (dickWinder str emulti).drop 2 = dickWinder (str.drop 2) emulti := by
  obtain ⟨a, b, c, rest, rfl⟩ : ∃ a b c rest, str = a :: b :: c :: rest := by
    match str, hLength with
    | a :: b :: c :: rest, _ => exact ⟨a, b, c, rest, rfl⟩
  have hCross : reverseRuns (windable emulti) ([a] ++ [b] ++ c :: rest) =
      reverseRuns (windable emulti) ([a] ++ [b]) ++ reverseRuns (windable emulti) (c :: rest) :=
    reverseRuns_append _ (by simpa [windable] using hHeader)
  rw [dickWinder_eq _ hMulti, dickWinder_eq _ hMulti]
  exact (congrArg (List.drop 2) hCross).trans (List.drop_left' (by simp))

/-- Reading the spread bytes back in the same order undoes the spreading, and
the fix-up of the first two bytes is not needed when they are no 0 or 128. -/
theorem gather_scatter_flip {body : Bytes} (hLength : 2 ≤ body.length)
    (hFirst : ∀ c ∈ body.take 2, c ≠ 0 ∧ c ≠ 128) :
    let str := (scatter (List.replicate body.length 0) (places body.length)
      (body.map flip)).map swapZero
    let newstr := (gather 0 str (places body.length)).map flip
    newstr.take 2 ++ (newstr.drop 2).map swapZero = body := by
  intro str newstr
  have hGather : gather 0 str (places body.length) = (body.map flip).map swapZero := by
    have hMap := gather_map swapZero 128
      (scatter (List.replicate body.length 0) (places body.length) (body.map flip))
      (places body.length)
    rw [gather_scatter 128 (places_nodup hLength)
      (fun i hi => by simpa using (mem_places hLength).mp hi)
      (by simp [places_length hLength])] at hMap
    exact hMap
  have hNewstr : newstr = body.map (flip ∘ swapZero ∘ flip) := by
    simp only [newstr, hGather, List.map_map]
  have hTake : newstr.take 2 = body.take 2 := by
    rw [hNewstr, ← List.map_take]
    refine (List.map_congr_left fun c hc => ?_).trans (List.map_id _)
    exact flip_swapZero_flip (hFirst c hc).1 (hFirst c hc).2
  have hDrop : (newstr.drop 2).map swapZero = body.drop 2 := by
    rw [hNewstr, ← List.map_drop, List.map_map]
    refine (List.map_congr_left fun c _ => ?_).trans (List.map_id _)
    exact swapZero_flip_swapZero_flip c
  rw [hTake, hDrop, List.take_append_drop]

/-- The receiver's decoding gives back the body of an encoded packet. The
sender's multiplier winds the length bytes with the body, so that no run may
cross between them, and the receiver leaves the fix-up out on the first two
bytes. -/
theorem decode_encode {server client : PacketProcessor} {rawstr : Bytes}
    (hShared : client.emultiD = server.emultiE) (hMulti : 2 ≤ server.emultiE)
    (hLength : 4 ≤ rawstr.length)
    (hRaw : ¬(rawstr.getD 2 0 = packetAInit ∧ rawstr.getD 3 0 = packetFInit))
    (hEncoded : ¬((encode server rawstr).getD 2 0 = packetAInit ∧
      (encode server rawstr).getD 3 0 = packetFInit))
    (hHeader : rawstr.getD 1 0 % server.emultiE ≠ 0 ∨ rawstr.getD 2 0 % server.emultiE ≠ 0)
    (hFirst : ∀ c ∈ (dickWinder (rawstr.drop 2) server.emultiE).take 2, c ≠ 0 ∧ c ≠ 128) :
    decode client ((encode server rawstr).drop 2) = rawstr.drop 2 := by
  have hNonzero : server.emultiE ≠ 0 := by
    intro h
    rw [h] at hMulti
    exact absurd hMulti (by decide)
  have hBody := dickWinder_drop_two hNonzero (by omega)
    (fun h => hHeader.elim (fun h' => h' h.1) (fun h' => h' h.2))
  have hBodyLength : (dickWinder (rawstr.drop 2) server.emultiE).length = rawstr.length - 2 := by
    simp
  have hEncode : (encode server rawstr).drop 2 =
      (scatter (List.replicate (rawstr.length - 2) 0) (places (rawstr.length - 2))
        ((dickWinder (rawstr.drop 2) server.emultiE).map flip)).map swapZero := by
    rw [encode_eq server hNonzero hRaw hLength, List.drop_left' (by simp; omega), hBody]
  have hStr : ¬(((encode server rawstr).drop 2).getD 0 0 = packetAInit ∧
      ((encode server rawstr).drop 2).getD 1 0 = packetFInit) := by
    simpa [List.getD, List.getElem?_drop] using hEncoded
  have hDecode := decode_eq client (by rw [hShared]; exact hNonzero) hStr
    (by rw [hEncode]; simp; omega)
  have hSize : ((encode server rawstr).drop 2).length = rawstr.length - 2 := by
    rw [hEncode]
    simp
  have hSpread := gather_scatter_flip (by omega) hFirst
  rw [hBodyLength] at hSpread
  rw [hDecode, hSize, hEncode, hShared]
  exact (congrArg (dickWinder · server.emultiE) hSpread).trans (dickWinder_involutive _ _)

theorem decode_encode_login_reply :
    decode ⟨0, 6⟩ ((encode ⟨6, 0⟩ [9, 254, 4, 6, 12, 97, 18, 0]).drop 2) =
      [4, 6, 12, 97, 18, 0] := by
  have hBody : (dickWinder [4, 6, 12, 97, 18, 0] 6).take 2 = [4, 12] := by decide
  have hFirst : ∀ c ∈ (dickWinder [4, 6, 12, 97, 18, 0] 6).take 2, c ≠ 0 ∧ c ≠ 128 := by
    rw [hBody]
    intro c hc
    rcases List.mem_pair.mp hc with rfl | rfl
    · decide
    · decide
  exact decode_encode rfl (by decide) (by decide) (by decide) (by decide) (by decide) hFirst

end Etheos.PacketProcessor
