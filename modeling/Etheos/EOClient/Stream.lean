import Etheos.EOClient.Tick
import Etheos.General.Frames

/-! The parser cuts the received stream at the frame boundaries, until it meets
a frame without data. There it waits for zero bytes for ever. -/
namespace Etheos

open PacketProcessor General General.Frames

/-- The length that two length bytes announce. -/
def frameLength (b0 b1 : UInt8) : Nat := number b0 b1 254 254

namespace EOClient

/-- The bytes that have been received and not yet executed. -/
def held (c : EOClient) : Bytes :=
  match c.packetState with
  | .readLen1 => c.client.recvBuffer.contents
  | .readLen2 => c.rawLength1 :: c.client.recvBuffer.contents
  | .readData => c.rawLength1 :: c.rawLength2 :: (c.data ++ c.client.recvBuffer.contents)

/-- The parser waits for the data of a packet without data. -/
def Stuck (c : EOClient) : Prop := c.packetState = .readData ∧ c.length = 0

/-- The buffer is well formed, and the parser knows how much of the current
packet is still to come. -/
structure Ready (c : EOClient) : Prop where
  buffer : c.client.recvBuffer.WF
  header : c.packetState ≠ .readData → c.data = []
  body : c.packetState = .readData →
    c.data.length + c.length = frameLength c.rawLength1 c.rawLength2
  waiting : c.length = 0 → c.data = []

/-- What the ticks between two receptions see of the state. -/
structure Tracks (stream : Bytes) (c : EOClient) : Prop where
  ready : c.Ready
  cut : Cut frameLength stream c.executed c.held
  nonempty : [] ∉ c.executed

theorem tickLoop_nil (c : EOClient) : c.tickLoop [] = c := by rw [tickLoop]

theorem tickLoop_cons (c : EOClient) (b : UInt8) (data : Bytes) :
    c.tickLoop (b :: data) =
      if (c.pass b data).2.2 then (c.pass b data).1
      else (c.pass b data).1.tickLoop (c.pass b data).2.1 := by rw [tickLoop]

/-- A tick takes the bytes that it waits for off the buffer, and goes through those that are there. -/
theorem tick_taken {c : EOClient} (h : c.Ready) {n : Nat}
    (hWaits : (if c.packetState = .readData then c.length else 1) = n) :
    ∃ client, client.recvBuffer.WF ∧
      client.recvBuffer.contents = c.client.recvBuffer.contents.drop n ∧
      c.tick = tickLoop { c with client := client } (c.client.recvBuffer.contents.take n) := by
  obtain ⟨hTake, hWF, _, hDrop⟩ := h.buffer.take n
  refine ⟨⟨(c.client.recvBuffer.take n).2⟩, hWF, hDrop, ?_⟩
  simp only [tick, Client.recv, hWaits, hTake]

/-- A tick in front of the first length byte. -/
theorem tick_readLen1 {c : EOClient} (h : c.Ready) (hState : c.packetState = .readLen1) :
    ∃ client, client.recvBuffer.WF ∧
      client.recvBuffer.contents = c.client.recvBuffer.contents.drop 1 ∧
      c.tick = match c.client.recvBuffer.contents with
        | [] => { c with client := client }
        | b :: _ => { c with client := client, rawLength1 := b, packetState := .readLen2 } := by
  obtain ⟨client, hWF, hDrop, hTick⟩ := tick_taken h (n := 1) (by simp [hState])
  refine ⟨client, hWF, hDrop, ?_⟩
  rw [hTick]
  cases c.client.recvBuffer.contents with
  | nil => exact tickLoop_nil _
  | cons b rest => simp [tickLoop_cons, pass, hState, readLen1, tickLoop_nil]

/-- A tick in front of the second length byte. -/
theorem tick_readLen2 {c : EOClient} (h : c.Ready) (hState : c.packetState = .readLen2) :
    ∃ client, client.recvBuffer.WF ∧
      client.recvBuffer.contents = c.client.recvBuffer.contents.drop 1 ∧
      c.tick = match c.client.recvBuffer.contents with
        | [] => { c with client := client }
        | b :: _ => { c with
            client := client, rawLength2 := b, length := frameLength c.rawLength1 b,
            packetState := .readData } := by
  obtain ⟨client, hWF, hDrop, hTick⟩ := tick_taken h (n := 1) (by simp [hState])
  refine ⟨client, hWF, hDrop, ?_⟩
  rw [hTick]
  cases c.client.recvBuffer.contents with
  | nil => exact tickLoop_nil _
  | cons b rest => simp [tickLoop_cons, pass, hState, readLen2, tickLoop_nil, frameLength]

/-- A tick in front of the data, of which some is still to come. -/
theorem tick_readData {c : EOClient} (h : c.Ready) (hState : c.packetState = .readData) :
    ∃ client, client.recvBuffer.WF ∧
      client.recvBuffer.contents = c.client.recvBuffer.contents.drop c.length ∧
      c.tick =
        if c.client.recvBuffer.contents = [] ∨ c.length = 0 then { c with client := client }
        else if c.length ≤ c.client.recvBuffer.contents.length then
          { c with
            client := client, length := 0, data := [], packetState := .readLen1,
            executed := c.executed ++ [c.data ++ c.client.recvBuffer.contents.take c.length] }
        else
          { c with
            client := client, length := c.length - c.client.recvBuffer.contents.length,
            data := c.data ++ c.client.recvBuffer.contents } := by
  obtain ⟨client, hWF, hDrop, hTick⟩ := tick_taken h (if_pos hState)
  refine ⟨client, hWF, hDrop, ?_⟩
  rw [hTick]
  by_cases hNone : c.client.recvBuffer.contents = [] ∨ c.length = 0
  · rw [if_pos hNone, List.take_eq_nil_iff.mpr (by tauto), tickLoop_nil]
  · rw [if_neg hNone]
    obtain ⟨b, data, hData⟩ : ∃ b data, c.client.recvBuffer.contents.take c.length = b :: data := by
      apply List.exists_cons_of_ne_nil
      rw [Ne, List.take_eq_nil_iff]
      tauto
    have hLength : (b :: data).length = min c.length c.client.recvBuffer.contents.length := by
      rw [← hData, List.length_take]
    have hPass (client : Client) : pass { c with client := client } b data =
        readData { c with client := client } (b :: data) := by
      simp only [pass, hState]
    rw [hData, tickLoop_cons, hPass]
    by_cases hAll : c.length ≤ c.client.recvBuffer.contents.length
    · have hTakeAll : (b :: data).take c.length = b :: data :=
        List.take_of_length_le (by omega)
      rw [readData_complete (by change c.length ≤ _; omega), if_pos rfl, if_pos hAll, hTakeAll]
    · have hWhole : b :: data = c.client.recvBuffer.contents := by
        rw [← hData, List.take_of_length_le (by omega)]
      rw [readData_short (by change _ < c.length; omega), if_neg (by simp), tickLoop_nil,
        if_neg hAll, hWhole]

/-- A tick keeps the frames cut off and the bytes behind them together. -/
theorem Tracks.ticked {stream : Bytes} {c : EOClient} (h : Tracks stream c) :
    Tracks stream c.tick := by
  obtain ⟨hReady, hCut, hNonempty⟩ := h
  cases hState : c.packetState with
  | readLen1 =>
      obtain ⟨client, hWF, hContents, hTick⟩ := tick_readLen1 hReady hState
      rw [hTick]
      cases hBuffer : c.client.recvBuffer.contents with
      | nil =>
          rw [hBuffer] at hContents
          refine ⟨⟨hWF, hReady.header, hReady.body, hReady.waiting⟩, ?_, hNonempty⟩
          simpa [held, hState, hBuffer, hContents] using hCut
      | cons b rest =>
          rw [hBuffer] at hContents
          refine ⟨⟨hWF, fun _ => hReady.header (by simp [hState]), by simp,
            hReady.waiting⟩, ?_, hNonempty⟩
          simpa [held, hState, hBuffer, hContents] using hCut
  | readLen2 =>
      obtain ⟨client, hWF, hContents, hTick⟩ := tick_readLen2 hReady hState
      rw [hTick]
      cases hBuffer : c.client.recvBuffer.contents with
      | nil =>
          rw [hBuffer] at hContents
          refine ⟨⟨hWF, hReady.header, hReady.body, hReady.waiting⟩, ?_, hNonempty⟩
          simpa [held, hState, hBuffer, hContents] using hCut
      | cons b rest =>
          rw [hBuffer] at hContents
          have hData : c.data = [] := hReady.header (by simp [hState])
          refine ⟨⟨hWF, fun h => absurd rfl h, fun _ => by simp [hData], fun _ => hData⟩, ?_,
            hNonempty⟩
          simpa [held, hState, hBuffer, hContents, hData] using hCut
  | readData =>
      obtain ⟨client, hWF, hContents, hTick⟩ := tick_readData hReady hState
      have hBody := hReady.body hState
      have hHeld : c.held =
          c.rawLength1 :: c.rawLength2 :: (c.data ++ c.client.recvBuffer.contents) := by
        simp [held, hState]
      rw [hTick]
      split
      · next hNone =>
          have hSame : client.recvBuffer.contents = c.client.recvBuffer.contents := by
            rw [hContents]
            rcases hNone with hNone | hNone
            · simp [hNone]
            · simp [hNone]
          refine ⟨⟨hWF, hReady.header, hReady.body, hReady.waiting⟩, ?_, hNonempty⟩
          simpa [held, hState, hSame] using hCut
      · next hSome =>
          split
          · next hAll =>
              have hSize : frameLength c.rawLength1 c.rawLength2 =
                  (c.data ++ c.client.recvBuffer.contents.take c.length).length := by
                simp only [List.length_append, List.length_take]
                omega
              refine ⟨⟨hWF, fun _ => rfl, by simp, fun _ => rfl⟩, ?_, ?_⟩
              · rw [hHeld, ← List.take_append_drop c.length c.client.recvBuffer.contents,
                  ← List.append_assoc] at hCut
                simpa [held, hContents] using hCut.frame hSize
              · simp only [List.mem_append, List.mem_singleton, not_or]
                refine ⟨hNonempty, fun hEmpty => ?_⟩
                have := congrArg List.length hEmpty
                rw [← hSize, ← hBody] at this
                simp at this
                omega
          · next hPart =>
              have hRest : client.recvBuffer.contents = [] := by
                rw [hContents, List.drop_eq_nil_of_le (by omega)]
              refine ⟨⟨hWF, fun h => absurd hState h, fun _ => ?_, fun h => ?_⟩, ?_, hNonempty⟩
              · simp only [List.length_append]
                omega
              · change c.length - _ = 0 at h
                omega
              · simpa [held, hState, hRest] using hCut

/-- Received bytes are held behind the others. -/
theorem Tracks.arrived {stream buf : Bytes} {c : EOClient} {client : Client} (h : Tracks stream c)
    (hRecv : c.client.doRecv buf = some client) :
    Tracks (stream ++ buf) { c with client := client } := by
  obtain ⟨hReady, hCut, hNonempty⟩ := h
  unfold Client.doRecv at hRecv
  split at hRecv
  · next hFits =>
      obtain rfl := Option.some.inj hRecv
      have hFree : buf.length ≤ c.client.recvBuffer.free := hFits.2.trans (Nat.min_le_left _ _)
      obtain ⟨hWF, _, hContents⟩ := hReady.buffer.put hFree
      refine ⟨⟨hWF, hReady.header, hReady.body, hReady.waiting⟩, ?_, hNonempty⟩
      have hHeld : held { c with client := ⟨c.client.recvBuffer.put buf⟩ } = c.held ++ buf := by
        cases hState : c.packetState <;> simp [held, hState, hContents]
      exact hHeld ▸ hCut.append buf
  · simp at hRecv

/-- In every run the executed strings are the frames cut off the bytes received
so far. -/
theorem Tracks.runs {stream : Bytes} {c c' : EOClient} (h : Tracks stream c)
    (events : List StreamEvent) (hRun : c.run events = some c') :
    Tracks (stream ++ received events) c' := by
  induction events generalizing stream c with
  | nil =>
      obtain rfl := Option.some.inj hRun
      simpa [received] using h
  | cons event events ih =>
      obtain ⟨next, hStep, hRest⟩ := Option.bind_eq_some_iff.mp hRun
      cases event with
      | recv buf =>
          obtain ⟨client, hRecv, hNext⟩ := Option.bind_eq_some_iff.mp hStep
          obtain rfl := Option.some.inj hNext
          simpa [received] using ih (h.arrived hRecv) hRest
      | tick =>
          obtain rfl := Option.some.inj hStep
          simpa [received] using ih h.ticked hRest

theorem tracks_new (k : Nat) : Tracks [] (new (.setRecvBuffer (2 ^ k))) :=
  ⟨⟨RingBuffer.empty_wf k, fun _ => rfl, by simp [new], fun _ => rfl⟩, .nil [], by simp [new]⟩

/-- A parser that waits for zero bytes has a frame without data in front of
it. -/
theorem Tracks.not_stuck {stream : Bytes} {c : EOClient} (h : Tracks stream c)
    (hFrames : [] ∉ (split frameLength stream).1) : ¬c.Stuck := by
  rintro ⟨hState, hLength⟩
  have hData := h.ready.waiting hLength
  have hSize : frameLength c.rawLength1 c.rawLength2 = ([] : Bytes).length := by
    rw [← h.ready.body hState, hData, hLength]
    rfl
  have hHeld : c.held = c.rawLength1 :: c.rawLength2 :: ([] ++ c.client.recvBuffer.contents) := by
    simp [held, hState, hData]
  rw [h.cut.split_eq, hHeld, split_frame hSize] at hFrames
  simp at hFrames

/-- With nothing buffered, a tick changes neither what was executed nor what is
held. -/
theorem tick_idle {c : EOClient} (h : c.Ready) (hEmpty : c.client.recvBuffer.contents = []) :
    c.tick.client.recvBuffer.contents = [] ∧ c.tick.executed = c.executed ∧
      c.tick.held = c.held := by
  cases hState : c.packetState with
  | readLen1 =>
      obtain ⟨client, _, hContents, hTick⟩ := tick_readLen1 h hState
      rw [hEmpty] at hTick hContents
      simp [hTick, held, hState, hContents, hEmpty]
  | readLen2 =>
      obtain ⟨client, _, hContents, hTick⟩ := tick_readLen2 h hState
      rw [hEmpty] at hTick hContents
      simp [hTick, held, hState, hContents, hEmpty]
  | readData =>
      obtain ⟨client, _, hContents, hTick⟩ := tick_readData h hState
      rw [if_pos (Or.inl hEmpty)] at hTick
      rw [hEmpty] at hContents
      simp [hTick, held, hState, hContents, hEmpty]

/-- With something buffered, a tick takes some of it. -/
theorem tick_progress {c : EOClient} (h : c.Ready) (hStuck : ¬c.Stuck)
    (hSome : c.client.recvBuffer.contents ≠ []) :
    c.tick.client.recvBuffer.contents.length < c.client.recvBuffer.contents.length := by
  have hPos := List.length_pos_iff.mpr hSome
  obtain ⟨b, rest, hBuffer⟩ := List.exists_cons_of_ne_nil hSome
  cases hState : c.packetState with
  | readLen1 =>
      obtain ⟨client, _, hContents, hTick⟩ := tick_readLen1 h hState
      rw [hBuffer] at hTick
      rw [hTick, hContents, List.length_drop]
      omega
  | readLen2 =>
      obtain ⟨client, _, hContents, hTick⟩ := tick_readLen2 h hState
      rw [hBuffer] at hTick
      rw [hTick, hContents, List.length_drop]
      omega
  | readData =>
      obtain ⟨client, _, hContents, hTick⟩ := tick_readData h hState
      have hLength : c.length ≠ 0 := fun hZero => hStuck ⟨hState, hZero⟩
      have hClient : c.tick.client = client := by
        rw [hTick]
        split
        · rfl
        · split <;> rfl
      rw [hClient, hContents, List.length_drop]
      omega

theorem Tracks.iterate {stream : Bytes} {c : EOClient} (h : Tracks stream c) (n : Nat) :
    Tracks stream (tick^[n] c) := by
  induction n with
  | zero => exact h
  | succ n ih =>
      rw [Function.iterate_succ_apply']
      exact ih.ticked

/-- Without a frame without data, enough ticks empty the buffer. -/
theorem Tracks.drains {stream : Bytes} {c : EOClient} (h : Tracks stream c)
    (hFrames : [] ∉ (split frameLength stream).1) :
    ∃ n, (tick^[n] c).client.recvBuffer.contents = [] := by
  induction hLength : c.client.recvBuffer.contents.length using Nat.strong_induction_on
    generalizing c with
  | _ n ih =>
      by_cases hEmpty : c.client.recvBuffer.contents = []
      · exact ⟨0, hEmpty⟩
      · have hLess := tick_progress h.ready (h.not_stuck hFrames) hEmpty
        obtain ⟨m, hm⟩ := ih _ (hLength ▸ hLess) h.ticked rfl
        exact ⟨m + 1, by rw [Function.iterate_succ_apply]; exact hm⟩

/-- With an empty buffer, what is held is an incomplete frame. -/
theorem Tracks.split_held {stream : Bytes} {c : EOClient} (h : Tracks stream c)
    (hStuck : ¬c.Stuck) (hEmpty : c.client.recvBuffer.contents = []) :
    split frameLength c.held = ([], c.held) := by
  cases hState : c.packetState with
  | readLen1 => exact split_short (by simp [held, hState, hEmpty])
  | readLen2 => exact split_short (by simp [held, hState, hEmpty])
  | readData =>
      have hBody := h.ready.body hState
      have hLength : c.length ≠ 0 := fun hZero => hStuck ⟨hState, hZero⟩
      simp only [held, hState, hEmpty, List.append_nil]
      exact split_incomplete (by omega)

/-- An empty buffer stays empty, and nothing changes any more. -/
theorem Tracks.iterate_idle {stream : Bytes} {c : EOClient} (h : Tracks stream c)
    (hEmpty : c.client.recvBuffer.contents = []) (n : Nat) :
    (tick^[n] c).client.recvBuffer.contents = [] ∧ (tick^[n] c).executed = c.executed ∧
      (tick^[n] c).held = c.held := by
  induction n with
  | zero => exact ⟨hEmpty, rfl, rfl⟩
  | succ n ih =>
      obtain ⟨hIh, hExecuted, hHeld⟩ := ih
      obtain ⟨hNext, hExecuted', hHeld'⟩ := tick_idle (h.iterate n).ready hIh
      rw [Function.iterate_succ_apply']
      exact ⟨hNext, hExecuted'.trans hExecuted, hHeld'.trans hHeld⟩

/-- What has been executed are the first frames of the stream. When nothing more
arrives, enough ticks execute all of them and keep the incomplete rest. -/
def Delivers (stream : Bytes) (c : EOClient) : Prop :=
  c.executed <+: (split frameLength stream).1 ∧
    ∃ n, ∀ k, n ≤ k → (tick^[k] c).executed = (split frameLength stream).1 ∧
      (tick^[k] c).held = (split frameLength stream).2

theorem Tracks.delivers_tracked {stream : Bytes} {c : EOClient} (h : Tracks stream c) :
    c.Delivers stream ↔ [] ∉ (split frameLength stream).1 := by
  constructor
  · rintro ⟨_, n, hAll⟩
    rw [← (hAll n (Nat.le_refl n)).1]
    exact (h.iterate n).nonempty
  · intro hFrames
    refine ⟨by rw [h.cut.split_eq]; exact List.prefix_append _ _, ?_⟩
    obtain ⟨n, hEmpty⟩ := h.drains hFrames
    have hDrained := h.iterate n
    have hSplit := hDrained.cut.split_eq
    rw [hDrained.split_held (hDrained.not_stuck hFrames) hEmpty, List.append_nil] at hSplit
    refine ⟨n, fun k hk => ?_⟩
    obtain ⟨m, rfl⟩ := Nat.exists_eq_add_of_le' hk
    obtain ⟨_, hExecuted, hHeld⟩ := hDrained.iterate_idle hEmpty m
    rw [Function.iterate_add_apply, hExecuted, hHeld, hSplit]
    exact ⟨rfl, rfl⟩

/-- For every way in which a stream is received and ticked, the executed
strings are the complete frames of the stream, each once and in order, exactly
when none of them is without data. -/
theorem delivers_iff (k : Nat) (events : List StreamEvent) {c : EOClient}
    (h : run (new (.setRecvBuffer (2 ^ k))) events = some c) :
    c.Delivers (received events) ↔ [] ∉ (split frameLength (received events)).1 := by
  simpa using ((tracks_new k).runs events h).delivers_tracked

theorem delivers_iff_two_packets :
    ∃ c, run (new (.setRecvBuffer (2 ^ 4))) [.recv [3, 254, 6, 4, 3, 254, 7], .tick] = some c ∧
      (c.Delivers (received [.recv [3, 254, 6, 4, 3, 254, 7], .tick]) ↔
        [] ∉ (split frameLength (received [.recv [3, 254, 6, 4, 3, 254, 7], .tick])).1) :=
  ⟨_, rfl, delivers_iff 4 [.recv [3, 254, 6, 4, 3, 254, 7], .tick] rfl⟩

/-- Two length bytes that announce no data block the parser. The packet behind
them is never executed. -/
theorem not_delivers_empty_frame :
    ∃ c, run (new (.setRecvBuffer (2 ^ 4))) [.recv [1, 254, 3, 254, 6, 4]] = some c ∧
      ¬c.Delivers (received [.recv [1, 254, 3, 254, 6, 4]]) := by
  refine ⟨_, rfl, fun h => ?_⟩
  have hEmpty : split frameLength (1 :: 254 :: ([] ++ [3, 254, 6, 4])) =
      ([] :: (split frameLength [3, 254, 6, 4]).1, (split frameLength [3, 254, 6, 4]).2) :=
    split_frame (by decide) _
  have hTracks := (tracks_new 4).runs [.recv [1, 254, 3, 254, 6, 4]] rfl
  have hFrames := hTracks.delivers_tracked.mp h
  simp only [received, List.flatMap_cons, List.flatMap_nil, List.append_nil, List.nil_append]
    at hFrames hEmpty
  rw [hEmpty] at hFrames
  simp at hFrames

end EOClient

end Etheos
