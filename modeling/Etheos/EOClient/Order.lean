import Etheos.EOClient.ActionQueue

/-! The order in which packets are handled. -/
namespace Etheos.ActionQueues

open General

section Pending

variable {T : Type*} (cfg : Config T)

/-- The packets that a playing client has to wait for. -/
def waits (reader : PacketReader) : Bool :=
  reader.family ≠ internal &&
    (cfg.handlers reader.family reader.action).any fun handler =>
      handler.allowStates.playing && !handler.allowStates.outOfBand

def waiting (readers : List PacketReader) : List PacketReader := readers.filter (waits cfg)

/-- What is in the queue for the first time, or for the second. -/
def received (queue : List (Action T)) : List PacketReader :=
  waiting cfg ((queue.filter (·.autoQueue)).map (·.reader))

def queued (queue : List (Action T)) : List PacketReader :=
  waiting cfg ((queue.filter (!·.autoQueue)).map (·.reader))

/-- What has still to be handled. -/
def pending (queue : List (Action T)) : List PacketReader := queued cfg queue ++ received cfg queue

variable {cfg}

@[simp] theorem waiting_append (readers more : List PacketReader) :
    waiting cfg (readers ++ more) = waiting cfg readers ++ waiting cfg more := List.filter_append ..

@[simp] theorem received_append (queue more : List (Action T)) :
    received cfg (queue ++ more) = received cfg queue ++ received cfg more := by
  simp [received]

@[simp] theorem queued_append (queue more : List (Action T)) :
    queued cfg (queue ++ more) = queued cfg queue ++ queued cfg more := by
  simp [queued]

@[simp] theorem received_nil : received cfg [] = [] := rfl

@[simp] theorem queued_nil : queued cfg [] = [] := rfl

/-- Nothing is received from inside the server. -/
theorem waits_internal (action : UInt8) (data : List UInt8) : waits cfg ⟨internal, action, data⟩ = false := rfl

theorem waiting_single_of_not {reader : PacketReader} (h : waits cfg reader = false) : waiting cfg [reader] = [] :=
  List.filter_eq_nil_iff.mpr fun other hOther => by
    obtain rfl := List.mem_singleton.mp hOther
    rw [h]
    decide

theorem waits_eq_false {reader : PacketReader}
    (h : ∀ handler, cfg.handlers reader.family reader.action = some handler →
      handler.allowStates.playing = true → handler.allowStates.outOfBand = true) : waits cfg reader = false := by
  unfold waits
  cases hHandler : cfg.handlers reader.family reader.action with
  | none => exact Bool.and_false _
  | some handler =>
      cases hPlaying : handler.allowStates.playing with
      | false => simp [hPlaying]
      | true => simp [h handler hHandler hPlaying]

section Moves

variable {s next : EOClient T}

/-- What a step does to the queue of a client that keeps playing: it takes the first action or none, and adds
others. -/
structure Moves (cfg : Config T) (s next : EOClient T) (taken : Nat) (added : List (Action T))
    (arrived handled : List PacketReader) : Prop where
  few : taken ≤ s.queue.length
  nextQueue : next.queue = s.queue.drop taken ++ added
  nextPopped : next.popped = s.popped + taken
  nextArrived : next.arrived = s.arrived ++ arrived
  nextHandled : next.handled = s.handled ++ handled
  handles : waiting cfg handled = queued cfg (s.queue.take taken)
  requeues : queued cfg added = received cfg (s.queue.take taken)
  receives : received cfg added = waiting cfg arrived

theorem Moves.trans {between : EOClient T} {taken taken' : Nat} {added added' : List (Action T)}
    {arrived arrived' handled handled' : List PacketReader} (h : Moves cfg s between taken added arrived handled)
    (h' : Moves cfg between next taken' added' arrived' handled') (hFew : taken + taken' ≤ s.queue.length) :
    Moves cfg s next (taken + taken') (added ++ added') (arrived ++ arrived') (handled ++ handled') := by
  have hOld : taken' ≤ (s.queue.drop taken).length := by
    rw [List.length_drop]
    omega
  have hTake : s.queue.take (taken + taken') = s.queue.take taken ++ between.queue.take taken' := by
    rw [h.nextQueue, List.take_append_of_le_length hOld, List.take_add]
  refine ⟨hFew, ?_, ?_, ?_, ?_, ?_, ?_, ?_⟩
  · rw [h'.nextQueue, h.nextQueue, List.drop_append_of_le_length hOld, List.drop_drop, List.append_assoc]
  · rw [h'.nextPopped, h.nextPopped, Nat.add_assoc]
  · rw [h'.nextArrived, h.nextArrived, List.append_assoc]
  · rw [h'.nextHandled, h.nextHandled, List.append_assoc]
  · rw [waiting_append, h.handles, h'.handles, hTake, queued_append]
  · rw [queued_append, h.requeues, h'.requeues, hTake, received_append]
  · rw [received_append, h.receives, h'.receives, waiting_append]

theorem Moves.refl (s : EOClient T) : Moves cfg s s 0 [] [] [] where
  few := Nat.zero_le _
  nextQueue := (List.append_nil _).symm
  nextPopped := rfl
  nextArrived := (List.append_nil _).symm
  nextHandled := (List.append_nil _).symm
  handles := rfl
  requeues := rfl
  receives := rfl

/-- Nothing is lost, and nothing is moved in front of what came before. -/
theorem Moves.pending {taken : Nat} {added : List (Action T)} {arrived handled : List PacketReader}
    (h : Moves cfg s next taken added arrived handled) :
    waiting cfg handled ++ pending cfg next.queue = pending cfg s.queue ++ waiting cfg arrived := by
  have hSplit := List.take_append_drop taken s.queue
  unfold ActionQueues.pending
  rw [h.nextQueue, ← h.receives, h.handles, queued_append, received_append, h.requeues]
  conv_rhs => rw [← hSplit, queued_append, received_append]
  simp only [List.append_assoc]

/-- What happens to a client at any time. Packets may be dropped, but not moved. -/
structure Advances (cfg : Config T) (s next : EOClient T) (arrived handled : List PacketReader) : Prop where
  nextArrived : next.arrived = s.arrived ++ arrived
  nextHandled : next.handled = s.handled ++ handled
  ordered : (waiting cfg handled ++ pending cfg next.queue).Sublist (pending cfg s.queue ++ waiting cfg arrived)

theorem Advances.refl (s : EOClient T) : Advances cfg s s [] [] :=
  ⟨(List.append_nil _).symm, (List.append_nil _).symm, by
    rw [show waiting cfg [] = [] from rfl, List.append_nil]
    exact .refl _⟩

theorem moves_same (h : next.queue = s.queue) (hArrived : next.arrived = s.arrived)
    (hHandled : next.handled = s.handled) (hPopped : next.popped = s.popped) : Moves cfg s next 0 [] [] [] :=
  { Moves.refl s with
    nextQueue := h.trans (List.append_nil _).symm
    nextPopped := hPopped
    nextArrived := hArrived.trans (List.append_nil _).symm
    nextHandled := hHandled.trans (List.append_nil _).symm }

theorem Moves.advances {taken : Nat} {added : List (Action T)} {arrived handled : List PacketReader}
    (h : Moves cfg s next taken added arrived handled) : Advances cfg s next arrived handled :=
  ⟨h.nextArrived, h.nextHandled, h.pending ▸ .refl _⟩

theorem Advances.trans {between : EOClient T} {arrived arrived' handled handled' : List PacketReader}
    (h : Advances cfg s between arrived handled) (h' : Advances cfg between next arrived' handled') :
    Advances cfg s next (arrived ++ arrived') (handled ++ handled') where
  nextArrived := by rw [h'.nextArrived, h.nextArrived, List.append_assoc]
  nextHandled := by rw [h'.nextHandled, h.nextHandled, List.append_assoc]
  ordered := by
    rw [waiting_append, waiting_append, List.append_assoc, ← List.append_assoc (ActionQueues.pending cfg s.queue)]
    refine ((List.Sublist.refl _).append h'.ordered).trans ?_
    rw [← List.append_assoc]
    exact h.ordered.append (.refl _)

end Moves

section Steps

variable {s next : EOClient T}

/-- The client is connected, and in the game. -/
def Plays (s : EOClient T) : Prop := s.connected = true ∧ s.state = .playing

instance (s : EOClient T) : Decidable (Plays s) := inferInstanceAs (Decidable (_ ∧ _))

/-- The first action is taken, if any is. The queue of a client that keeps playing was not too long then. -/
structure Steps (cfg : Config T) (s next : EOClient T) (taken : Nat) (added : List (Action T))
    (arrived handled : List PacketReader) : Prop where
  once : taken ≤ 1
  pops : next.popped = s.popped + taken
  room : taken = 1 → s.queue.length ≤ cfg.packetQueueMax
  advances : Advances cfg s next arrived handled
  moves : Plays s → Plays next → Moves cfg s next taken added arrived handled

theorem Moves.steps {added : List (Action T)} {arrived : List PacketReader}
    (h : Moves cfg s next 0 added arrived []) : Steps cfg s next 0 added arrived [] :=
  ⟨Nat.zero_le 1, h.nextPopped, nofun, h.advances, fun _ _ => h⟩

/-- What comes of an action that was taken from the queue. -/
structure Handles (cfg : Config T) (s next : EOClient T) (reader : PacketReader) (fromQueue : Bool)
    (added : List (Action T)) (handled : List PacketReader) : Prop where
  nextQueue : next.queue = s.queue ++ added
  nextPopped : next.popped = s.popped
  nextArrived : next.arrived = s.arrived
  nextHandled : next.handled = s.handled ++ handled
  receives : received cfg added = []
  first : fromQueue = false → waiting cfg handled = [] ∧ (queued cfg added).Sublist (waiting cfg [reader])
  second : fromQueue = true → queued cfg added = [] ∧ (waiting cfg handled).Sublist (waiting cfg [reader])
  plays : Plays s → Plays next → waiting cfg handled ++ queued cfg added = waiting cfg [reader]

/-- A packet that is dropped, because nobody wants it in this state. -/
theorem handles_dropped {reader : PacketReader} {fromQueue : Bool} (connected : Bool)
    (h : Plays s → connected = true → waits cfg reader = false) :
    Handles cfg s { s with connected } reader fromQueue [] [] where
  nextQueue := (List.append_nil _).symm
  nextPopped := rfl
  nextArrived := rfl
  nextHandled := (List.append_nil _).symm
  receives := rfl
  first _ := ⟨rfl, List.nil_sublist _⟩
  second _ := ⟨rfl, List.nil_sublist _⟩
  plays hPlays hNext := (waiting_single_of_not (h hPlays hNext.1)).symm

/-- An action is taken from the queue. -/
theorem pop_advances {action : Action T} {queue : List (Action T)} (hQueue : s.queue = action :: queue)
    {after : EOClient T} (now : T) {added : List (Action T)} {handled : List PacketReader}
    (h : Handles cfg { s with queue, popped := s.popped + 1 } after action.reader (!action.autoQueue) added handled) :
    Advances cfg s { after with next := now } [] handled ∧
      (Plays s → Plays after → Moves cfg s { after with next := now } 1 added [] handled) := by
  have hNext : after.queue = queue ++ added := h.nextQueue
  have hArrived : after.arrived = s.arrived ++ [] := h.nextArrived.trans (List.append_nil _).symm
  cases hAuto : action.autoQueue with
  | true =>
      rw [hAuto] at h
      obtain ⟨hHandled, hAdded⟩ := h.first rfl
      have hQueued : queued cfg (action :: queue) = queued cfg queue := by
        unfold queued
        rw [List.filter_cons_of_neg (by rw [hAuto]; decide)]
      have hReceived : received cfg (action :: queue) = waiting cfg [action.reader] ++ received cfg queue := by
        unfold received
        rw [List.filter_cons_of_pos hAuto, List.map_cons, ← waiting_append]
        rfl
      refine ⟨⟨hArrived, h.nextHandled, ?_⟩, fun hPlays hAfter => ?_⟩
      · show (waiting cfg handled ++ (queued cfg after.queue ++ received cfg after.queue)).Sublist _
        unfold pending
        rw [hHandled, hNext, hQueue, hQueued, hReceived, queued_append, received_append, h.receives]
        simp only [List.nil_append, List.append_nil, List.append_assoc, show waiting cfg [] = [] from rfl]
        exact (List.Sublist.refl _).append (hAdded.append (.refl _))
      · have hBoth := h.plays hPlays hAfter
        rw [hHandled, List.nil_append] at hBoth
        refine ⟨by rw [hQueue]; exact Nat.le_add_left 1 _, ?_, h.nextPopped, hArrived, h.nextHandled, ?_, ?_, h.receives⟩
        · rw [hQueue]
          exact hNext
        · rw [hHandled, hQueue]
          show [] = queued cfg (action :: [])
          unfold queued
          rw [List.filter_cons_of_neg (by rw [hAuto]; decide)]
          rfl
        · rw [hBoth, hQueue]
          show _ = received cfg (action :: [])
          unfold received
          rw [List.filter_cons_of_pos hAuto]
          rfl
  | false =>
      rw [hAuto] at h
      obtain ⟨hAdded, hHandled⟩ := h.second rfl
      have hReceived : received cfg (action :: queue) = received cfg queue := by
        unfold received
        rw [List.filter_cons_of_neg (by rw [hAuto]; decide)]
      have hQueued : queued cfg (action :: queue) = waiting cfg [action.reader] ++ queued cfg queue := by
        unfold queued
        rw [List.filter_cons_of_pos (by rw [hAuto]; rfl), List.map_cons, ← waiting_append]
        rfl
      refine ⟨⟨hArrived, h.nextHandled, ?_⟩, fun hPlays hAfter => ?_⟩
      · show (waiting cfg handled ++ (queued cfg after.queue ++ received cfg after.queue)).Sublist _
        unfold pending
        rw [hNext, hQueue, hQueued, hReceived, queued_append, received_append, h.receives, hAdded]
        simp only [List.append_nil, List.append_assoc, show waiting cfg [] = [] from rfl]
        exact hHandled.append (.refl _)
      · have hBoth := h.plays hPlays hAfter
        rw [hAdded, List.append_nil] at hBoth
        refine ⟨by rw [hQueue]; exact Nat.le_add_left 1 _, ?_, h.nextPopped, hArrived, h.nextHandled, ?_, ?_, h.receives⟩
        · rw [hQueue]
          exact hNext
        · rw [hBoth, hQueue]
          show _ = queued cfg (action :: [])
          unfold queued
          rw [List.filter_cons_of_pos (by rw [hAuto]; rfl)]
          rfl
        · rw [hAdded, hQueue]
          show [] = received cfg (action :: [])
          unfold received
          rw [List.filter_cons_of_neg (by rw [hAuto]; decide)]
          rfl

variable [OfScientific T]

def deathActions : List (Action T) := [⟨⟨internal, internalNull, []⟩, 1.5, false⟩, ⟨⟨internal, internalWarp, []⟩, 0.0, false⟩]

theorem deathRespawn_eq (s : EOClient T) : s.deathRespawn = { s with queue := s.queue ++ deathActions } := by
  show ({ s with queue := s.queue ++ [_] ++ [_] } : EOClient T) = _
  rw [List.append_assoc]
  rfl

theorem queued_deathActions : queued cfg (deathActions : List (Action T)) = [] := by
  show [(⟨internal, internalNull, []⟩ : PacketReader), ⟨internal, internalWarp, []⟩].filter (waits cfg) = []
  rw [List.filter_cons_of_neg (by rw [waits_internal]; decide), List.filter_cons_of_neg (by rw [waits_internal]; decide),
    List.filter_nil]

/-- Nothing but actions from inside the server are added. -/
theorem respawn_eq (cfg : Config T) (s : EOClient T) (n : Nat) : ∃ added, s.respawn n = { s with queue := s.queue ++ added } ∧
    queued cfg added = [] ∧ received cfg added = [] := by
  induction n generalizing s with
  | zero =>
      refine ⟨[], ?_, rfl, rfl⟩
      rw [List.append_nil]
      rfl
  | succ n ih =>
      obtain ⟨added, hSame, hQueued, hReceived⟩ := ih s.deathRespawn
      refine ⟨deathActions ++ added, ?_, ?_, hReceived⟩
      · show s.deathRespawn.respawn n = _
        rw [hSame, deathRespawn_eq, List.append_assoc]
      · rw [queued_append, queued_deathActions, hQueued]
        rfl

theorem handles_called (cfg : Config T) (s : EOClient T) {reader : PacketReader} {fromQueue : Bool} (effect : Effect)
    (h : fromQueue = false → waits cfg reader = false) :
    ∃ added, Handles cfg s (s.call reader effect) reader fromQueue added [reader] := by
  obtain ⟨added, hSame, hQueued, hReceived⟩ := respawn_eq cfg s effect.respawns
  refine ⟨added, ?_, ?_, ?_, rfl, hReceived, fun hFirst => ⟨?_, ?_⟩, fun _ => ⟨hQueued, .refl _⟩, fun _ _ => ?_⟩
  · show (s.respawn effect.respawns).queue = _
    rw [hSame]
  · show (s.respawn effect.respawns).popped = _
    rw [hSame]
  · show (s.respawn effect.respawns).arrived = _
    rw [hSame]
  · exact waiting_single_of_not (h hFirst)
  · rw [hQueued]
    exact List.nil_sublist _
  · rw [hQueued, List.append_nil]

theorem handle_handles (cfg : Config T) (s : EOClient T) (reader : PacketReader) (fromQueue : Bool) (effect : Effect) :
    ∃ added handled, Handles cfg s (s.handle cfg reader fromQueue effect) reader fromQueue added handled := by
  unfold EOClient.handle
  cases hHandler : cfg.handlers reader.family reader.action with
  | none =>
      refine ⟨[], [], handles_dropped s.connected fun _ _ => waits_eq_false fun handler hSome => ?_⟩
      rw [hHandler] at hSome
      cases hSome
  | some handler =>
      have hClosed : ∃ added handled, Handles cfg s s.close reader fromQueue added handled :=
        ⟨[], [], handles_dropped false fun _ hConnected => by cases hConnected⟩
      dsimp only
      split
      case isTrue hWrong =>
        refine ⟨[], [], handles_dropped s.connected fun hPlays _ => waits_eq_false fun other hSome hPlaying => ?_⟩
        rw [hHandler] at hSome
        obtain rfl := Option.some.inj hSome
        unfold EOClient.stateCheck at hWrong
        rw [hPlays.2] at hWrong
        cases hPlaying.symm.trans hWrong
      case isFalse =>
        split
        case isTrue hQueues =>
          obtain ⟨rfl, hPlaying, hBand⟩ := hQueues
          refine ⟨[⟨reader, handler.delay, false⟩], [], rfl, rfl, rfl, (List.append_nil _).symm, rfl,
            fun _ => ⟨rfl, .refl _⟩, nofun, fun _ _ => rfl⟩
        case isFalse hNow =>
          have hCalled : ∃ added handled, Handles cfg s (s.call reader effect) reader fromQueue added handled := by
            have hAtOnce : fromQueue = false → waits cfg reader = false := by
              intro hFirst
              refine waits_eq_false fun other hSome hPlaying => ?_
              rw [hHandler] at hSome
              obtain rfl := Option.some.inj hSome
              by_contra hBand
              exact hNow ⟨hFirst, hPlaying, eq_false_of_ne_true hBand⟩
            obtain ⟨added, hAdded⟩ := handles_called cfg s effect hAtOnce
            exact ⟨added, _, hAdded⟩
          cases handler.fnType with
          | clientFn => exact hCalled
          | playerFn =>
              dsimp only
              split
              · exact hCalled
              · exact hClosed
          | characterFn =>
              dsimp only
              split
              · exact hCalled
              · exact hClosed

theorem execute_steps (cfg : Config T) (s : EOClient T) (reader : PacketReader) (inSequence : Bool) :
    ∃ added arrived, Steps cfg s (s.execute reader inSequence) 0 added arrived [] := by
  unfold EOClient.execute
  split
  · exact ⟨[], [], (Moves.refl s).steps⟩
  · split
    · exact ⟨[], [], (moves_same rfl rfl rfl rfl : Moves cfg s s.close 0 [] [] []).steps⟩
    · split
      · exact ⟨[], [], (moves_same rfl rfl rfl rfl : Moves cfg s s.close 0 [] [] []).steps⟩
      · refine ⟨[⟨reader, 0.02, true⟩], [reader], Moves.steps ?_⟩
        exact ⟨Nat.zero_le _, rfl, rfl, rfl, (List.append_nil _).symm, rfl, rfl, rfl⟩

theorem deathRespawn_steps (cfg : Config T) (s : EOClient T) : Steps cfg s s.deathRespawn 0 deathActions [] [] := by
  rw [deathRespawn_eq]
  refine Moves.steps ⟨Nat.zero_le _, rfl, rfl, (List.append_nil _).symm, (List.append_nil _).symm, rfl, ?_, rfl⟩
  exact queued_deathActions

variable [Add T] [LE T] [DecidableLE T]

theorem pumpQueue_steps (cfg : Config T) (s : EOClient T) (now : T) (effect : Effect) :
    ∃ taken added handled, Steps cfg s (s.pumpQueue cfg now effect) taken added [] handled := by
  have hSame : Steps cfg s s 0 [] [] [] := (Moves.refl s).steps
  unfold EOClient.pumpQueue
  split
  · exact ⟨0, [], [], hSame⟩
  · split
    · exact ⟨0, [], [], (moves_same rfl rfl rfl rfl : Moves cfg s s.close 0 [] [] []).steps⟩
    case isFalse hRoom =>
      split
      · exact ⟨0, [], [], hSame⟩
      case h_2 action queue hQueue =>
        split
        · obtain ⟨added, handled, h⟩ := handle_handles cfg { s with queue, popped := s.popped + 1 } action.reader
            (!action.autoQueue) effect
          obtain ⟨hAdvances, hMoves⟩ := pop_advances hQueue (now + action.time) h
          exact ⟨1, added, handled, Nat.le_refl 1, h.nextPopped, fun _ => Nat.le_of_not_lt hRoom, hAdvances,
            fun hPlays hNext => hMoves hPlays hNext⟩
        · exact ⟨0, [], [], hSame⟩

theorem step_steps (cfg : Config T) {event : Event T} (hStep : step cfg s event = some next) :
    ∃ taken added arrived handled, Steps cfg s next taken added arrived handled := by
  cases event with
  | execute reader inSequence =>
      obtain rfl := Option.some.inj hStep
      obtain ⟨added, arrived, h⟩ := execute_steps cfg s reader inSequence
      exact ⟨0, added, arrived, [], h⟩
  | pumpQueue now effect =>
      obtain rfl := Option.some.inj hStep
      obtain ⟨taken, added, handled, h⟩ := pumpQueue_steps cfg s now effect
      exact ⟨taken, added, [], handled, h⟩
  | deathRespawn =>
      obtain rfl := Option.some.inj hStep
      exact ⟨0, deathActions, [], [], deathRespawn_steps cfg s⟩
  | change connected state player character =>
      obtain rfl := Option.some.inj hStep
      have hMoves : Moves cfg s { s with connected, state, player, character } 0 [] [] [] := moves_same rfl rfl rfl rfl
      exact ⟨0, [], [], [], hMoves.steps⟩

end Steps

section Runs

variable [OfScientific T] [Add T] [LE T] [DecidableLE T] {s next : EOClient T} {events : List (Event T)}

theorem run_advances (hRun : run (step cfg) s events = some next) :
    ∃ arrived handled, Advances cfg s next arrived handled := by
  induction events generalizing s with
  | nil =>
      obtain rfl := Option.some.inj hRun
      exact ⟨[], [], .refl s⟩
  | cons event events ih =>
      obtain ⟨between, hStep, hRest⟩ := Option.bind_eq_some_iff.mp hRun
      obtain ⟨taken, added, arrived, handled, hSteps⟩ := step_steps cfg hStep
      obtain ⟨arrived', handled', hLater⟩ := ih hRest
      exact ⟨_, _, hSteps.advances.trans hLater⟩

/-- The client plays before the first of the events, and behind all of them. -/
theorem plays_cons {event : Event T} {between : EOClient T} (hStep : step cfg s event = some between)
    (h : Always (step cfg) Plays s (event :: events)) :
    Plays s ∧ Plays between ∧ Always (step cfg) Plays between events := by
  obtain ⟨hFirst, hRest⟩ := (always_cons hStep events).mp h
  exact ⟨hFirst, hRest [] between List.nil_prefix rfl, hRest⟩

/-- While the client plays, everything that has come is handled or still to be. -/
theorem run_exact (hPlays : Always (step cfg) Plays s events) (hRun : run (step cfg) s events = some next) :
    ∃ arrived handled, next.arrived = s.arrived ++ arrived ∧ next.handled = s.handled ++ handled ∧
      waiting cfg handled ++ pending cfg next.queue = pending cfg s.queue ++ waiting cfg arrived := by
  induction events generalizing s with
  | nil =>
      obtain rfl := Option.some.inj hRun
      exact ⟨[], [], (List.append_nil _).symm, (List.append_nil _).symm, (List.append_nil _).symm⟩
  | cons event events ih =>
      obtain ⟨between, hStep, hRest⟩ := Option.bind_eq_some_iff.mp hRun
      obtain ⟨hFirst, hNext, hLater⟩ := plays_cons hStep hPlays
      obtain ⟨taken, added, arrived, handled, hSteps⟩ := step_steps cfg hStep
      have hMoves := hSteps.moves hFirst hNext
      obtain ⟨arrived', handled', hArrived, hHandled, hExact⟩ := ih hLater hRest
      refine ⟨arrived ++ arrived', handled ++ handled', ?_, ?_, ?_⟩
      · rw [hArrived, hMoves.nextArrived, List.append_assoc]
      · rw [hHandled, hMoves.nextHandled, List.append_assoc]
      · rw [waiting_append, waiting_append, List.append_assoc, hExact, ← List.append_assoc, hMoves.pending,
          List.append_assoc]

/-- As long as nothing that has come since is taken. -/
theorem run_moves (hPlays : Always (step cfg) Plays s events) (hRun : run (step cfg) s events = some next)
    (hFew : next.popped ≤ s.popped + s.queue.length) :
    ∃ taken added arrived handled, Moves cfg s next taken added arrived handled := by
  induction events generalizing s with
  | nil =>
      obtain rfl := Option.some.inj hRun
      exact ⟨0, [], [], [], .refl s⟩
  | cons event events ih =>
      obtain ⟨between, hStep, hRest⟩ := Option.bind_eq_some_iff.mp hRun
      obtain ⟨hFirst, hNext, hLater⟩ := plays_cons hStep hPlays
      obtain ⟨taken, added, arrived, handled, hSteps⟩ := step_steps cfg hStep
      have hMoves := hSteps.moves hFirst hNext
      have hLength : s.queue.length ≤ taken + between.queue.length := by
        rw [hMoves.nextQueue, List.length_append, List.length_drop]
        omega
      have hPopped := hMoves.nextPopped
      obtain ⟨taken', added', arrived', handled', hMore⟩ := ih hLater hRest (by omega)
      have hNextPopped := hMore.nextPopped
      exact ⟨_, _, _, _, hMoves.trans hMore (by omega)⟩

theorem run_room (hPlays : Always (step cfg) Plays s events) (hRun : run (step cfg) s events = some next)
    (hPops : s.popped < next.popped) : s.queue.length ≤ cfg.packetQueueMax := by
  induction events generalizing s with
  | nil =>
      obtain rfl := Option.some.inj hRun
      omega
  | cons event events ih =>
      obtain ⟨between, hStep, hRest⟩ := Option.bind_eq_some_iff.mp hRun
      obtain ⟨hFirst, hNext, hLater⟩ := plays_cons hStep hPlays
      obtain ⟨taken, added, arrived, handled, hSteps⟩ := step_steps cfg hStep
      obtain hNone | hOne := Nat.le_one_iff_eq_zero_or_eq_one.mp hSteps.once
      · subst hNone
        have hMoves := hSteps.moves hFirst hNext
        have hPopped : between.popped = s.popped := hMoves.nextPopped
        have hBetween := ih hLater hRest (by omega)
        rw [hMoves.nextQueue, List.drop_zero, List.length_append] at hBetween
        omega
      · exact hSteps.room hOne

/-- Everything that is in the queue is taken once, and what was taken for the first time is queued then. -/
theorem run_round (hPlays : Always (step cfg) Plays s events) (hRun : run (step cfg) s events = some next)
    (hRound : next.popped = s.popped + s.queue.length) :
    ∃ handled, next.handled = s.handled ++ handled ∧ waiting cfg handled = queued cfg s.queue ∧
      queued cfg next.queue = received cfg s.queue := by
  obtain ⟨taken, added, arrived, handled, hMoves⟩ := run_moves hPlays hRun (Nat.le_of_eq hRound)
  have hTaken : taken = s.queue.length := by
    have hPopped := hMoves.nextPopped
    omega
  refine ⟨handled, hMoves.nextHandled, ?_, ?_⟩
  · rw [hMoves.handles, hTaken, List.take_length]
  · rw [hMoves.nextQueue, hTaken, List.drop_length, List.nil_append, hMoves.requeues, hTaken, List.take_length]

/-- Two rounds handle everything that has come before. -/
theorem run_handled (hPlays : Always (step cfg) Plays s events) (hRun : run (step cfg) s events = some next)
    (hPops : s.popped + 2 * cfg.packetQueueMax < next.popped) :
    ∃ handled, next.handled = s.handled ++ handled ∧ pending cfg s.queue <+: waiting cfg handled := by
  have hOnce : ∀ s event later, step cfg s event = some later → later.popped ≤ s.popped + 1 := by
    intro s event later hStep
    obtain ⟨taken, added, arrived, handled, hSteps⟩ := step_steps cfg hStep
    rw [hSteps.pops]
    exact Nat.add_le_add_left hSteps.once _
  have hRoom := run_room hPlays hRun (by omega)
  obtain ⟨first, others, between, rfl, hFirst, hOthers, hBetween⟩ :=
    exists_split (f := EOClient.popped) hOnce hRun (Nat.le_add_right s.popped s.queue.length) (by omega)
  obtain ⟨hFirstPlays, hOthersPlay⟩ := hPlays.split hFirst
  have hNextRoom := run_room hOthersPlay hOthers (by omega)
  obtain ⟨second, rest, later, rfl, hSecond, hRest, hLater⟩ :=
    exists_split (f := EOClient.popped) hOnce hOthers (Nat.le_add_right between.popped between.queue.length) (by omega)
  obtain ⟨hSecondPlays, hRestPlays⟩ := hOthersPlay.split hSecond
  obtain ⟨handled, hHandled, hDone, hQueued⟩ := run_round hFirstPlays hFirst hBetween
  obtain ⟨handled', hHandled', hDone', -⟩ := run_round hSecondPlays hSecond hLater
  obtain ⟨-, handled'', -, hHandled'', -⟩ := run_exact hRestPlays hRest
  refine ⟨handled ++ handled' ++ handled'', ?_, waiting cfg handled'', ?_⟩
  · rw [hHandled'', hHandled', hHandled, List.append_assoc, List.append_assoc, List.append_assoc]
  · rw [waiting_append, waiting_append, hDone, hDone', hQueued]
    rfl

/-- What is handled from `s` to `next`: in the order in which it has come, all of it once, and nothing late. -/
structure InOrder (cfg : Config T) (s next : EOClient T) : Prop where
  ordered : (waiting cfg next.handled ++ pending cfg next.queue).Sublist (waiting cfg next.arrived)
  exact : ∃ arrived handled, next.arrived = s.arrived ++ arrived ∧ next.handled = s.handled ++ handled ∧
    waiting cfg handled ++ pending cfg next.queue = pending cfg s.queue ++ waiting cfg arrived
  soon : s.popped + 2 * cfg.packetQueueMax < next.popped →
    ∃ handled, next.handled = s.handled ++ handled ∧ pending cfg s.queue <+: waiting cfg handled

/-- The packets that a client sends while it keeps playing, whatever has happened before. -/
theorem packets_in_order (cfg : Config T) (first : T) (before during : List (Event T))
    (hBefore : run (step cfg) (.start first) before = some s) (hDuring : run (step cfg) s during = some next)
    (hPlays : Always (step cfg) Plays s during) : InOrder cfg s next where
  ordered := by
    have hRun : run (step cfg) (.start first) (before ++ during) = some next := by
      rw [run_append, hBefore]
      exact hDuring
    obtain ⟨arrived, handled, hAdvances⟩ := run_advances hRun
    rw [hAdvances.nextArrived, hAdvances.nextHandled]
    exact hAdvances.ordered
  exact := run_exact hPlays hDuring
  soon := run_handled hPlays hDuring

/-- One packet that waits for its handler. -/
def walk : PacketReader := ⟨4, 26, []⟩

def walkConfig : Config ℚ where
  handlers family action :=
    if family = walk.family ∧ action = walk.action then some ⟨.clientFn, ⟨false, false, false, false, true, false⟩, 0.48⟩
    else none
  packetQueueMax := 40

theorem packets_in_order_walk :
    let s : EOClient ℚ := ⟨true, .playing, true, true, [], 0, [], [], 0⟩
    let effect : Effect := ⟨true, .playing, true, true, 0⟩
    ∃ next, run (step walkConfig) s [.execute walk true, .pumpQueue 1 effect, .pumpQueue 2 effect] = some next ∧
      next.handled = [walk] ∧ InOrder walkConfig s next := by
  intro s effect
  let during : List (Event ℚ) := [.execute walk true, .pumpQueue 1 effect, .pumpQueue 2 effect]
  have hDuring : run (step walkConfig) s during = some ⟨true, .playing, true, true, [], 2.48, [walk], [walk], 2⟩ := by
    decide +kernel
  have hPlays : Always (step walkConfig) Plays s during := by decide +kernel
  refine ⟨_, hDuring, rfl, ?_⟩
  exact packets_in_order walkConfig 0 [.change true .playing true true] during rfl hDuring hPlays

end Runs

end Pending

end Etheos.ActionQueues
