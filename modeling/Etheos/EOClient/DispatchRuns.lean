import Etheos.EOClient.DispatchInvariant

/-! The state of a client says what it holds, in all runs. So the handlers that are called find a player, and a
character of it that is in the game. -/
namespace Etheos.Dispatch

open General
open ActionQueues (ClientState AllowStates PacketHandler)

variable {s : Server} {c : ClientId} {client : EOClient}

section Calls

/-- What a player or a character is needed for is not allowed in the menus before there is one. -/
def Suits (handler : PacketHandler ℚ) : Prop :=
  (handler.fnType ≠ .clientFn → handler.allowStates.uninitialized = false ∧ handler.allowStates.menu = false) ∧
    (handler.fnType = .characterFn →
      handler.allowStates.characterMenu = false ∧ handler.allowStates.loggingIn = false)

instance (handler : PacketHandler ℚ) : Decidable (Suits handler) := inferInstanceAs (Decidable (_ ∧ _))

theorem suits_of_registered : ∀ r ∈ registrations, Suits r.2.2 := by decide +kernel

theorem suits_of_handlers {family action : UInt8} {handler : PacketHandler ℚ}
    (h : handlers family action = some handler) : Suits handler := by
  obtain ⟨r, hFound, rfl⟩ := Option.map_eq_some_iff.mp h
  exact suits_of_registered r (List.mem_reverse.mp (List.mem_of_find?_eq_some hFound))

theorem Server.called_iff {family : PacketFamily} {action : PacketAction} {callee : Callee} :
    s.called c family action = some callee ↔ ∃ client, s.client c = some client ∧ client.connected = true ∧
      s.handle client family.toByte action.toByte true = .ok callee := by
  unfold Server.called
  cases s.client c with
  | none => simp
  | some client => cases hHandle : s.handle client family.toByte action.toByte true <;> simp [hHandle, Except.toOption]

/-- The handler is allowed in the state of the client, and finds whom it is for. -/
theorem called_handler (handler : PacketHandler ℚ) {family : PacketFamily} {action : PacketAction} {callee : Callee}
    (hHandler : handlers family.toByte action.toByte = some handler) (h : s.called c family action = some callee)
    (hSome : callee ≠ .nobody) : ∃ client, s.client c = some client ∧ client.connected = true ∧
      s.stateCheck client handler.allowStates = .ok true ∧ s.call client handler = .ok callee := by
  obtain ⟨client, hFound, hOn, hHandle⟩ := Server.called_iff.mp h
  refine ⟨client, hFound, hOn, ?_⟩
  simp only [Server.handle, hHandler] at hHandle
  cases hCheck : s.stateCheck client handler.allowStates with
  | error fault => simp [hCheck, Bind.bind, Except.bind] at hHandle
  | ok allowed =>
      cases allowed with
      | false =>
          simp [hCheck, Bind.bind, Except.bind, Pure.pure, Except.pure] at hHandle
          exact absurd hHandle.symm hSome
      | true => exact ⟨rfl, by simpa [hCheck, Bind.bind, Except.bind] using hHandle⟩

/-- What the callee is to the client. -/
def Server.Belongs (s : Server) (c : ClientId) : Callee → Prop
  | .nobody | .queued | .client => True
  | .player p => ∃ player, s.player p = some player ∧ player.client = some c
  | .character x => x ∈ s.characters ∧ ∃ character player, s.character x = some character ∧
      s.player character.player = some player ∧ player.client = some c ∧ player.character = some x

/-- The characters that are selected by clients in the game are in the game. -/
structure Kept (s : Server) : Prop where
  inv : Inv s
  inGame : ∀ {c client p player x}, s.client c = some client → client.connected = true → client.state = .playing →
    client.player = some p → s.player p = some player → player.character = some x → x ∈ s.characters

theorem Inv.own (h : Inv s) (hFound : s.client c = some client) (hOn : client.connected = true) {p : PlayerId}
    (hP : client.player = some p) : ∃ player, s.player p = some player ∧ player.client = some c := by
  obtain ⟨player, hHeld, hMine | ⟨_, hOff⟩⟩ := h.held hFound hP
  · exact ⟨player, hHeld, hMine⟩
  · rw [hOn] at hOff
    contradiction

theorem Inv.ownCharacter (h : Inv s) {p : PlayerId} {player : Player} {x : CharId} (hP : s.player p = some player)
    (hX : player.character = some x) : ∃ character, s.character x = some character ∧ character.player = p :=
  h.owned hP (h.selected hP hX)

/-- The check of the state never follows a null pointer. -/
theorem Inv.stateCheck (h : Inv s) (hFound : s.client c = some client) (hOn : client.connected = true)
    (allowStates : AllowStates) : ∃ allowed, s.stateCheck client allowStates = .ok allowed := by
  have hFits := h.fits hFound hOn
  unfold Server.Fits at hFits
  unfold Server.stateCheck
  cases hState : client.state with
  | uninitialized => exact ⟨_, rfl⟩
  | initialized => exact ⟨_, rfl⟩
  | loggedIn =>
      rw [hState] at hFits
      obtain ⟨p, hP⟩ := Option.isSome_iff_exists.mp hFits
      obtain ⟨player, hHeld, _⟩ := h.own hFound hOn hP
      rw [hP, Option.bind_some, hHeld]
      exact ⟨_, rfl⟩
  | playing => exact ⟨_, rfl⟩

/-- Who is called is there. -/
theorem Kept.call (h : Kept s) (hFound : s.client c = some client) (hOn : client.connected = true)
    {handler : PacketHandler ℚ} (hSuits : Suits handler)
    (hAllowed : s.stateCheck client handler.allowStates = .ok true) :
    ∃ callee, s.call client handler = .ok callee ∧ s.Belongs c callee := by
  have hFits := h.inv.fits hFound hOn
  obtain ⟨hMenu, hCharacter⟩ := hSuits
  cases hType : handler.fnType with
  | clientFn => exact ⟨.client, by simp [Server.call, hType], trivial⟩
  | playerFn =>
      obtain ⟨p, hP⟩ : ∃ p, client.player = some p := by
        obtain ⟨hUninitialized, hInitialized⟩ := hMenu (by simp [hType])
        unfold Server.Fits at hFits
        unfold Server.stateCheck at hAllowed
        cases hState : client.state with
        | uninitialized => simp [hState, hUninitialized] at hAllowed
        | initialized => simp [hState, hInitialized] at hAllowed
        | loggedIn =>
            rw [hState] at hFits
            exact Option.isSome_iff_exists.mp hFits
        | playing =>
            rw [hState] at hFits
            obtain ⟨p, _, _, hP, _⟩ := hFits
            exact ⟨p, hP⟩
      exact ⟨.player p, by simp [Server.call, hType, hP], h.inv.own hFound hOn hP⟩
  | characterFn =>
      have hState : client.state = .playing := by
        obtain ⟨hUninitialized, hInitialized⟩ := hMenu (by simp [hType])
        obtain ⟨hCharacterMenu, hLoggingIn⟩ := hCharacter hType
        unfold Server.stateCheck at hAllowed
        cases hState : client.state with
        | uninitialized => simp [hState, hUninitialized] at hAllowed
        | initialized => simp [hState, hInitialized] at hAllowed
        | loggedIn =>
            simp only [hState, hCharacterMenu, hLoggingIn, ite_self] at hAllowed
            split at hAllowed <;> simp at hAllowed
        | playing => rfl
      rw [Server.Fits, hState] at hFits
      obtain ⟨p, player, x, hP, hHeld, hX⟩ := hFits
      obtain ⟨player', hHeld', hMine⟩ := h.inv.own hFound hOn hP
      obtain rfl := Option.some.inj (hHeld.symm.trans hHeld')
      obtain ⟨character, hIs, rfl⟩ := h.inv.ownCharacter hHeld hX
      exact ⟨.character x, by simp [Server.call, hType, hP, hHeld, hX],
        h.inGame hFound hOn hState hP hHeld hX, character, player, hIs, hHeld, hMine, hX⟩

theorem Kept.handle (h : Kept s) (hFound : s.client c = some client) (hOn : client.connected = true)
    (family action : UInt8) (fromQueue : Bool) :
    ∃ callee, s.handle client family action fromQueue = .ok callee ∧ s.Belongs c callee := by
  unfold Server.handle
  cases hHandler : handlers family action with
  | none => exact ⟨.nobody, rfl, trivial⟩
  | some handler =>
      obtain ⟨allowed, hAllowed⟩ := h.inv.stateCheck hFound hOn handler.allowStates
      simp only [hAllowed, Bind.bind, Except.bind]
      cases allowed with
      | false => exact ⟨.nobody, rfl, trivial⟩
      | true =>
          rw [if_pos rfl]
          split
          · exact ⟨.queued, rfl, trivial⟩
          · exact h.call hFound hOn (suits_of_handlers hHandler) hAllowed

theorem Kept.called (h : Kept s) {family : PacketFamily} {action : PacketAction} {callee : Callee}
    (hCalled : s.called c family action = some callee) :
    ∃ client, s.client c = some client ∧ client.connected = true ∧ s.Belongs c callee := by
  obtain ⟨client, hFound, hOn, hHandle⟩ := Server.called_iff.mp hCalled
  obtain ⟨callee', hHandle', hBelongs⟩ := h.handle hFound hOn family.toByte action.toByte true
  obtain rfl := Except.ok.inj (hHandle.symm.trans hHandle')
  exact ⟨client, hFound, hOn, hBelongs⟩

end Calls

section Steps

theorem Inv.entered (h : Inv s) {x : CharId} (hMem : x ∈ s.characters) : s.Entered x := by
  obtain ⟨character, hX, hOn⟩ := h.listed.mp hMem
  obtain ⟨hPlays, player, hP, hSelected⟩ := h.online hX hOn
  exact ⟨character, player, hX, hP, h.selected hP hSelected, hPlays⟩

/-- The client of a player in the game is in the game. -/
theorem Inv.playing (h : Inv s) (hFound : s.client c = some client) {p : PlayerId} (hP : client.player = some p)
    (hPlays : s.Plays p) : client.state = .playing := by
  obtain ⟨player, c', client', hHeld, hHolds, hFound', hState⟩ := hPlays
  obtain ⟨holder, hHolder, hHeld'⟩ := h.holder hHeld hHolds
  obtain rfl := Option.some.inj (hFound'.symm.trans hHolder)
  obtain rfl := h.single hFound hFound' hP hHeld'
  obtain rfl := Option.some.inj (hFound.symm.trans hFound')
  exact hState

/-- Nobody comes into the game, and nobody leaves it. -/
theorem Kept.of_inv (h : Kept s) {s' : Server} (hInv : Inv s')
    (hClient : ∀ {c client}, s'.client c = some client → client.connected = true → client.state = .playing →
      ∃ before, s.client c = some before ∧ before.connected = true ∧ before.state = .playing ∧
        before.player = client.player)
    (hPlayer : ∀ {p player x}, s'.player p = some player → player.character = some x →
      ∃ before, s.player p = some before ∧ before.character = some x)
    (hCharacters : ∀ x ∈ s.characters, x ∈ s'.characters) : Kept s' where
  inv := hInv
  inGame hFound hOn hIn hP hHeld hX := by
    obtain ⟨client, hClient, hOn', hIn', hSame⟩ := hClient hFound hOn hIn
    obtain ⟨player, hBefore, hSelected⟩ := hPlayer hHeld hX
    exact hCharacters _ (h.inGame hClient hOn' hIn' (hSame.trans hP) hBefore hSelected)

/-- A client is changed, and does not come into the game by it. -/
theorem Kept.setClient (h : Kept s) {new : EOClient} (hInv : Inv (s.setClient c new)) (hOld : s.client c = some client)
    (hPlayer : new.player = client.player)
    (hState : new.connected = true → new.state = .playing → client.connected = true ∧ client.state = .playing) :
    Kept (s.setClient c new) := by
  refine h.of_inv hInv (fun {c' client'} hFound hOn hIn => ?_) (fun hP hX => ⟨_, hP, hX⟩) fun _ => id
  rw [setClient_client] at hFound
  split at hFound
  · subst_vars
    obtain rfl := Option.some.inj hFound
    obtain ⟨hOn', hIn'⟩ := hState hOn hIn
    exact ⟨client, hOld, hOn', hIn', hPlayer.symm⟩
  · exact ⟨client', hFound, hOn, hIn, rfl⟩

theorem Kept.disconnect (h : Kept s) (hOld : s.client c = some client) (pending : Bool) :
    Kept (s.setClient c { client with connected := false, asyncOpPending := pending }) :=
  h.setClient (h.inv.disconnect hOld pending) hOld rfl fun hOn => by contradiction

theorem Kept.accept (h : Kept s) : Kept { s.setClient s.fresh .new with fresh := s.fresh + 1 } := by
  have hNew : ∀ {c client}, (s.setClient s.fresh .new).client c = some client →
      c = s.fresh ∧ client = .new ∨ s.client c = some client := fun {c client} hFound => by
    rw [setClient_client] at hFound
    split at hFound
    · exact .inl ⟨‹_›, (Option.some.inj hFound).symm⟩
    · exact .inr hFound
  have hStill : ∀ {c client}, s.client c = some client → (s.setClient s.fresh .new).client c = some client :=
    fun {c client} hFound => by rw [setClient_client, if_neg (Nat.ne_of_lt (h.inv.clientOld hFound)), hFound]
  have hPlays : ∀ {p}, s.Plays p → Server.Plays { s.setClient s.fresh .new with fresh := s.fresh + 1 } p := by
    rintro p ⟨player, c, client, hP, hHolds, hFound, hIn⟩
    exact ⟨player, c, client, hP, hHolds, hStill hFound, hIn⟩
  have hKeeps : ∀ {x}, s.Entered x → Server.Entered { s.setClient s.fresh .new with fresh := s.fresh + 1 } x := by
    rintro x ⟨character, player, hX, hP, hMem, hIn⟩
    exact ⟨character, player, hX, hP, hMem, hPlays hIn⟩
  have hInv : Inv { s.setClient s.fresh .new with fresh := s.fresh + 1 } := by
    refine
      { h.inv with
        clientOld := fun hFound => ?_, playerOld := fun hP => Nat.lt_succ_of_lt (h.inv.playerOld hP)
        characterOld := fun hX => Nat.lt_succ_of_lt (h.inv.characterOld hX)
        partnerOld := fun hX hY => Nat.lt_succ_of_lt (h.inv.partnerOld hX hY)
        operationOld := fun hMem => Nat.lt_succ_of_lt (h.inv.operationOld hMem)
        held := fun hFound hP => ?_, holder := fun hP hHolds => ?_, single := fun hFound hFound' hP hP' => ?_
        fits := fun hFound hOn => ?_, online := fun hX hOn => ?_
        trading := fun hX hOn => hKeeps (h.inv.trading hX hOn)
        partner := fun hX hY hSome => hKeeps (h.inv.partner hX hY hSome), awaited := fun hMem hFound => ?_ }
    · obtain ⟨rfl, _⟩ | hFound := hNew hFound
      · exact Nat.lt_succ_self _
      · exact Nat.lt_succ_of_lt (h.inv.clientOld hFound)
    · obtain ⟨_, rfl⟩ | hFound := hNew hFound
      · contradiction
      · exact h.inv.held hFound hP
    · obtain ⟨holder, hFound, hHeld⟩ := h.inv.holder hP hHolds
      exact ⟨holder, hStill hFound, hHeld⟩
    · obtain ⟨_, rfl⟩ | hOld := hNew hFound
      · contradiction
      · obtain ⟨_, rfl⟩ | hOld' := hNew hFound'
        · contradiction
        · exact h.inv.single hOld hOld' hP hP'
    · obtain ⟨_, rfl⟩ | hFound := hNew hFound
      · rfl
      · exact h.inv.fits hFound hOn
    · obtain ⟨hIn, hSelected⟩ := h.inv.online hX hOn
      exact ⟨hPlays hIn, hSelected⟩
    · obtain ⟨hSame, _⟩ | hFound := hNew hFound
      · exact absurd (h.inv.operationOld hMem) (hSame ▸ Nat.lt_irrefl _)
      · exact h.inv.awaited hMem hFound
  refine h.of_inv hInv (fun hFound hOn hIn => ?_) (fun hP hX => ⟨_, hP, hX⟩) fun _ => id
  obtain ⟨_, rfl⟩ | hFound := hNew hFound
  · contradiction
  · exact ⟨_, hFound, hOn, hIn, rfl⟩

theorem Kept.bury (h : Kept s) (hC : s.client c = some client) : Kept (s.bury c client) := by
  refine ⟨h.inv.bury hC, ?_⟩
  cases hP : client.player with
  | none =>
      simp only [Server.bury, hP, Function.update_apply]
      intro c' client' p player x hFound hOn hIn hHeld hPlayer hX
      split at hFound
      · contradiction
      · exact h.inGame hFound hOn hIn hHeld hPlayer hX
  | some p =>
      obtain ⟨player, hHeld, _⟩ := h.inv.held hC hP
      have hLeaves := leaves_deleteCharacters h.inv.trades h.inv.listed.mp player.characters
      simp only [Server.bury, hP, hHeld, Server.deletePlayer, Function.update_apply, hLeaves.client, hLeaves.player,
        hLeaves.characters]
      intro c' client' q other x hFound hOn hIn hQ hOther hX
      split at hFound
      · contradiction
      split at hOther
      · contradiction
      rename_i hApart
      refine List.mem_filter.mpr ⟨h.inGame hFound hOn hIn hQ hOther hX, decide_eq_true fun hMem => hApart ?_⟩
      obtain ⟨character, hFoundX, rfl⟩ := h.inv.owned hHeld hMem
      obtain ⟨character', hFoundX', rfl⟩ := h.inv.ownCharacter hOther hX
      rw [Option.some.inj (hFoundX.symm.trans hFoundX')]

theorem Kept.initInit (h : Kept s) {callee : Callee} (hCalled : s.called c .init .init = some callee)
    (hSome : callee ≠ .nobody) : Kept (s.modifyClient c fun client => { client with state := .initialized }) := by
  obtain ⟨client, hFound, hOn, hAllowed, -⟩ := called_handler (client Allow.uninitialized 0) rfl hCalled hSome
  have hState : client.state = .uninitialized := by
    unfold Server.stateCheck at hAllowed
    cases hState : client.state with
    | uninitialized => rfl
    | initialized | playing => simp [hState, Dispatch.client, Allow.uninitialized] at hAllowed
    | loggedIn =>
        simp only [hState, Dispatch.client, Allow.uninitialized, ite_self] at hAllowed
        split at hAllowed <;> simp at hAllowed
  have hNone := h.inv.fits hFound hOn
  rw [Server.Fits, hState] at hNone
  rw [modifyClient_of hFound]
  refine h.setClient (h.inv.setClient _ hFound rfl (fun hIn => ?_) id (fun _ => hNone) fun op hMem hSame => ?_)
    hFound rfl fun _ hIn => by contradiction
  · rw [hState] at hIn
    contradiction
  · have hOp : op.Awaited client := h.inv.awaited hMem (hSame.symm ▸ hFound)
    exact ⟨hOp.pending, hOp.login, fun _ _ _ => rfl⟩

theorem Kept.request (h : Kept s) {kind : Kind} {callee : Callee}
    (hCalled : s.called c kind.packet.1 kind.packet.2 = some callee) (hSome : callee ≠ .nobody)
    (hC : s.client c = some client) : Kept (s.execute c client kind) := by
  obtain ⟨client', hFound, hOn, -⟩ := Server.called_iff.mp hCalled
  obtain rfl := Option.some.inj (hC.symm.trans hFound)
  have hInv := h.inv.execute hC hOn kind fun hKind => by
    subst hKind
    obtain ⟨client', hFound, _, hAllowed, -⟩ :=
      called_handler (Dispatch.client Allow.menu 1) rfl hCalled hSome
    obtain rfl := Option.some.inj (hC.symm.trans hFound)
    unfold Server.stateCheck at hAllowed
    cases hState : client.state with
    | initialized => rfl
    | uninitialized | playing => simp [hState, Dispatch.client, Allow.menu] at hAllowed
    | loggedIn =>
        simp only [hState, Dispatch.client, Allow.menu, ite_self] at hAllowed
        split at hAllowed <;> simp at hAllowed
  by_cases hPending : client.asyncOpPending = true
  · rw [Server.execute, if_pos hPending]
    exact h.disconnect hC false
  · rw [Server.execute, if_neg hPending] at hInv ⊢
    refine h.of_inv hInv (fun {c' client'} hFound' hOn' hIn' => ?_) (fun hP hX => ⟨_, hP, hX⟩) fun _ => id
    replace hFound' := (setClient_client c').symm.trans hFound'
    split at hFound'
    · subst_vars
      obtain rfl := Option.some.inj hFound'
      exact ⟨client, hC, hOn', hIn', rfl⟩
    · exact ⟨client', hFound', hOn', hIn', rfl⟩

/-- A client that has just got its player is not in the game. -/
theorem Kept.loggedIn (h : Kept s) {count : Nat} (hInv : Inv (s.loggedIn c client count)) :
    Kept (s.loggedIn c client count) := by
  obtain ⟨characters, hP⟩ := (h.inv.playerFactory count).2
  obtain ⟨hClient, -, hCharacters, hPlayer⟩ := h.inv.playerFactory_rest count
  have hOthers : ∀ {p player x link}, ((s.playerFactory count).setPlayer s.fresh ⟨link, none, characters⟩).player p =
      some player → player.character = some x → ∃ before, s.player p = some before ∧ before.character = some x :=
    fun {p player x link} hFound hX => by
      rw [setPlayer_player] at hFound
      split at hFound
      · obtain rfl := Option.some.inj hFound
        contradiction
      · exact ⟨player, hPlayer p ‹_› ▸ hFound, hX⟩
  have hStill : (s.playerFactory count).setPlayer s.fresh ⟨none, none, characters⟩ = s.playerFactory count := by
    rw [Server.setPlayer, ← hP]
    exact congrArg (fun player => { s.playerFactory count with player }) (Function.update_eq_self ..)
  unfold Server.loggedIn at hInv ⊢
  simp only [modifyPlayer_of hP] at hInv ⊢
  split
  · rename_i hOn
    rw [if_pos hOn] at hInv
    refine h.of_inv hInv (fun {c' client'} hFound hOn' hIn => ?_) hOthers fun x hMem => hCharacters.symm ▸ hMem
    rw [setClient_client] at hFound
    split at hFound
    · obtain rfl := Option.some.inj hFound
      contradiction
    · exact ⟨client', hClient ▸ hFound, hOn', hIn, rfl⟩
  · rename_i hOff
    rw [if_neg hOff] at hInv
    refine h.of_inv hInv (fun {c' client'} hFound hOn' hIn => ?_) (fun hFound hX => hOthers (hStill.symm ▸ hFound) hX)
      fun x hMem => hCharacters.symm ▸ hMem
    rw [setClient_client] at hFound
    split at hFound
    · obtain rfl := Option.some.inj hFound
      exact absurd hOn' hOff
    · exact ⟨client', hClient ▸ hFound, hOn', hIn, rfl⟩

theorem Kept.callback (h : Kept s) {op : Operation} (hOp : op ∈ s.operations) (hNot : op.called = false)
    (hC : s.client op.client = some client) (outcome : Outcome) : Kept (s.callback op client outcome) := by
  have hInv := h.inv.callback hOp hNot hC outcome
  have hMarked : Kept (s.markCalled op) :=
    h.of_inv (h.inv.markCalled op) (fun hFound hOn hIn => ⟨_, hFound, hOn, hIn, rfl⟩) (fun hP hX => ⟨_, hP, hX⟩)
      fun _ => id
  unfold Server.callback at hInv ⊢
  simp only at hInv ⊢
  cases hKind : op.kind with
  | createAccount | changePassword => exact hMarked
  | login =>
      cases outcome with
      | thrown => exact hMarked
      | failure closes =>
          cases closes with
          | false => exact hMarked
          | true => exact hMarked.disconnect hC client.asyncOpPending
      | success count =>
          simp only [hKind] at hInv
          exact hMarked.loggedIn hInv

theorem Kept.clear (h : Kept s) {op : Operation} (hOp : op ∈ s.operations) :
    Kept { s.modifyClient op.client fun client => { client with asyncOpPending := false } with
      operations := s.operations.filter (· ≠ op) } := by
  have hInv := h.inv.clear hOp
  cases hC : s.client op.client with
  | none =>
      simp only [Server.modifyClient, hC] at hInv ⊢
      exact h.of_inv hInv (fun hFound hOn hIn => ⟨_, hFound, hOn, hIn, rfl⟩) (fun hP hX => ⟨_, hP, hX⟩) fun _ => id
  | some client =>
      rw [modifyClient_of hC] at hInv ⊢
      refine h.of_inv hInv (fun {c' client'} hFound hOn hIn => ?_) (fun hP hX => ⟨_, hP, hX⟩) fun _ => id
      replace hFound := (setClient_client c').symm.trans hFound
      split at hFound
      · subst_vars
        obtain rfl := Option.some.inj hFound
        exact ⟨client, hC, hOn, hIn, rfl⟩
      · exact ⟨client', hFound, hOn, hIn, rfl⟩

/-- The player of a client that has not selected a character. -/
theorem called_characterMenu (h : Kept s) (delay : ℚ) {family : PacketFamily} {action : PacketAction} {p : PlayerId}
    (hHandler : handlers family.toByte action.toByte = some (player Allow.characterMenu delay))
    (hCalled : s.called c family action = some (.player p)) :
    ∃ client player, s.client c = some client ∧ client.connected = true ∧ client.player = some p ∧
      s.player p = some player ∧ player.character = none ∧ ¬s.Plays p := by
  obtain ⟨client, hFound, hOn, hAllowed, hCall⟩ := called_handler _ hHandler hCalled (by simp)
  have hP : client.player = some p := by
    simp only [Server.call, Dispatch.player] at hCall
    cases hP : client.player with
    | none => simp [hP] at hCall
    | some q => simpa [hP] using hCall
  obtain ⟨player, hHeld, _⟩ := h.inv.own hFound hOn hP
  unfold Server.stateCheck at hAllowed
  cases hState : client.state with
  | uninitialized | initialized | playing => simp [hState, Dispatch.player, Allow.characterMenu] at hAllowed
  | loggedIn =>
      simp only [hState, hP, Option.bind_some, hHeld, Dispatch.player, Allow.characterMenu] at hAllowed
      refine ⟨client, player, hFound, hOn, hP, hHeld, ?_, fun hPlays => ?_⟩
      · cases hX : player.character with
        | none => rfl
        | some x => simp [hX] at hAllowed
      · have hIn := h.inv.playing hFound hP hPlays
        rw [hState] at hIn
        contradiction

theorem Kept.welcomeRequest (h : Kept s) {p : PlayerId} {player : Player} {x : CharId}
    (hCalled : s.called c .welcome .request = some (.player p)) (hP : s.player p = some player)
    (hMem : x ∈ player.characters) : Kept (s.setPlayer p { player with character := some x }) := by
  obtain ⟨client, player', hFound, hOn, hHeld, hP', hNone, hNot⟩ :=
    called_characterMenu h 0 rfl hCalled
  obtain rfl := Option.some.inj (hP.symm.trans hP')
  refine ⟨h.inv.setPlayer _ hP rfl (fun hX hSame hOnline => ?_) (fun y hY => ?_) (by simp)
    (fun y hY => h.inv.owned hP hY) fun y hY _ => hY, ?_⟩
  · exact absurd (hSame ▸ (h.inv.online hX hOnline).1) hNot
  · exact Option.some.inj hY ▸ hMem
  · intro c' client' q other y hFound' hOn' hIn hQ hOther hY
    rw [setPlayer_player] at hOther
    split at hOther
    · subst_vars
      have hLogged : ¬client.state = .playing := fun hIn => by
        have hFits := h.inv.fits hFound hOn
        rw [Server.Fits, hIn] at hFits
        obtain ⟨q, player', x', hQ', hHeld', hX'⟩ := hFits
        obtain rfl := Option.some.inj (hHeld.symm.trans hQ')
        obtain rfl := Option.some.inj (hP.symm.trans hHeld')
        simp [hNone] at hX'
      obtain rfl := h.inv.single hFound hFound' hHeld hQ
      obtain rfl := Option.some.inj (hFound.symm.trans hFound')
      exact absurd hIn hLogged
    · exact h.inGame hFound' hOn' hIn hQ hOther hY

theorem login_modifyClient (hFound : s.client c = some client) (change : EOClient → EOClient) (x : CharId) :
    (s.login x).modifyClient c change = (s.setClient c (change client)).login x := by
  have hSame : (s.login x).client = s.client := by
    unfold Server.login Server.modifyCharacter
    split <;> rfl
  rw [modifyClient_of (hSame ▸ hFound)]
  unfold Server.login Server.modifyCharacter
  simp only [setClient_character]
  split <;> rfl

theorem Kept.welcomeMsg (h : Kept s) {p : PlayerId} {player : Player} {x : CharId}
    (hCalled : s.called c .welcome .msg = some (.player p)) (hP : s.player p = some player)
    (hX : player.character = some x) :
    Kept ((s.login x).modifyClient c fun client => { client with state := .playing }) := by
  obtain ⟨client, hFound, hOn, hAllowed, hCall⟩ :=
    called_handler (Dispatch.player Allow.loggingIn 0) rfl hCalled (by simp)
  have hHeld : client.player = some p := by
    simp only [Server.call, Dispatch.player] at hCall
    cases hQ : client.player with
    | none => simp [hQ] at hCall
    | some q => simpa [hQ] using hCall
  have hState : client.state = .loggedIn := by
    unfold Server.stateCheck at hAllowed
    cases hState : client.state with
    | loggedIn => rfl
    | uninitialized | initialized | playing => simp [hState, Dispatch.player, Allow.loggingIn] at hAllowed
  obtain ⟨player', hP', hMine⟩ := h.inv.own hFound hOn hHeld
  obtain rfl := Option.some.inj (hP.symm.trans hP')
  obtain ⟨character, hIs, rfl⟩ := h.inv.ownCharacter hP hX
  have hOff : character.online = false := by
    by_contra hOnline
    have hIn := h.inv.playing hFound hHeld (h.inv.online hIs (by simpa using hOnline)).1
    rw [hState] at hIn
    contradiction
  have hSet : Inv (s.setClient c { client with state := .playing }) := by
    refine h.inv.setClient _ hFound rfl (fun _ => rfl) id (fun _ => ?_) fun op hMem hSame => ?_
    · exact ⟨character.player, player, x, hHeld, hP, hX⟩
    · have hOp : op.Awaited client := h.inv.awaited hMem (hSame.symm ▸ hFound)
      refine ⟨hOp.pending, hOp.login, fun hKind hNot hOn => ?_⟩
      have hMenu := hOp.menu hKind hNot hOn
      rw [hState] at hMenu
      contradiction
  have hPlays : (s.setClient c { client with state := .playing }).Plays character.player :=
    ⟨player, c, { client with state := .playing }, hP, hMine, by simp, rfl⟩
  rw [login_modifyClient hFound]
  refine ⟨hSet.login hIs hOff hPlays hP hX, ?_⟩
  rw [login_of (s := s.setClient c { client with state := .playing }) hIs]
  intro c' client' q other y hFound' hOn' hIn' hQ hOther hY
  replace hFound' := (setClient_client c').symm.trans hFound'
  show y ∈ s.characters ++ [x]
  split at hFound'
  · obtain rfl := Option.some.inj hFound'
    obtain rfl := Option.some.inj (hHeld.symm.trans hQ)
    obtain rfl := Option.some.inj (hP.symm.trans hOther)
    obtain rfl := Option.some.inj (hX.symm.trans hY)
    exact List.mem_append_right _ (List.mem_singleton_self _)
  · exact List.mem_append_left _ (h.inGame hFound' hOn' hIn' hQ hOther hY)

theorem Kept.characterCreate (h : Kept s) {p : PlayerId} (hCalled : s.called c .character .create = some (.player p)) :
    Kept (s.newCharacter p) := by
  obtain ⟨client, player, hFound, hOn, hHeld, hP, -⟩ := called_characterMenu h 1 rfl hCalled
  have hInv := h.inv.newCharacter hP
  rw [newCharacter_of hP] at hInv ⊢
  refine h.of_inv hInv (fun hFound hOn hIn => ⟨_, hFound, hOn, hIn, rfl⟩) (fun {q other x} hQ hX => ?_) fun _ => id
  rw [setPlayer_player] at hQ
  split at hQ
  · subst_vars
    obtain rfl := Option.some.inj hQ
    exact ⟨player, hP, hX⟩
  · exact ⟨other, hQ, hX⟩

theorem Kept.characterRemove (h : Kept s) {p : PlayerId} (hCalled : s.called c .character .remove = some (.player p))
    (x : CharId) : Kept (s.modifyPlayer p fun player => { player with characters := player.characters.erase x }) := by
  obtain ⟨client, player, hFound, hOn, hHeld, hP, hNone, hNot⟩ := called_characterMenu h 1 rfl hCalled
  rw [modifyPlayer_of hP]
  refine h.of_inv (h.inv.setPlayer _ hP rfl (fun hX hSame hOnline => ?_) (fun y hY => ?_) (by simp [hNone])
    (fun y hMem => h.inv.owned hP (List.mem_of_mem_erase hMem)) fun y hMem hEntered => ?_)
    (fun hFound hOn hIn => ⟨_, hFound, hOn, hIn, rfl⟩) (fun {q other y} hQ hY => ?_) fun _ => id
  · exact absurd (hSame ▸ (h.inv.online hX hOnline).1) hNot
  · rw [hNone] at hY
    contradiction
  · obtain ⟨character, _, hFoundY, _, _, hPlays⟩ := hEntered
    obtain ⟨character', hFoundY', hSame⟩ := h.inv.owned hP hMem
    obtain rfl := Option.some.inj (hFoundY.symm.trans hFoundY')
    exact absurd (hSame ▸ hPlays) hNot
  · rw [setPlayer_player] at hQ
    split at hQ
    · subst_vars
      obtain rfl := Option.some.inj hQ
      exact ⟨player, hP, hY⟩
    · exact ⟨other, hQ, hY⟩

theorem Kept.duty (h : Kept s) {x swap : CharId} {character : Character} {player : Player}
    (hCalled : s.called c .talk .report = some (.character x)) (hX : s.character x = some character)
    (hP : s.player character.player = some player) (hMem : swap ∈ player.characters) :
    Kept (((s.logout x).modifyPlayer character.player fun player => { player with character := some swap }).login
      swap) := by
  obtain ⟨client, hFound, hOn, hIn, character', player', hX', hP', hMine, hSelected⟩ := h.called hCalled
  obtain rfl := Option.some.inj (hX.symm.trans hX')
  obtain rfl := Option.some.inj (hP.symm.trans hP')
  have hLeaves := leaves_logout h.inv.trades h.inv.listed.mp x
  have hGone := h.inv.logout x
  have hPlayer : (s.logout x).player character.player = some player := hLeaves.player ▸ hP
  have hPlays : s.Plays character.player := by
    obtain ⟨other, hFoundX, hOnline⟩ := h.inv.listed.mp hIn
    obtain rfl := Option.some.inj (hX.symm.trans hFoundX)
    exact (h.inv.online hX hOnline).1
  -- Nobody else of the player is in the game.
  have hNobody : ∀ {y other}, (s.logout x).character y = some other → other.player = character.player →
      other.online = false := fun {y other} hY hSame => by
    by_contra hOnline
    obtain ⟨_, before, hBefore, _⟩ := hLeaves.was hY
    obtain ⟨other', hY', hSame', hOnline'⟩ := hLeaves.kept hBefore (by simp)
    obtain rfl := Option.some.inj (hY.symm.trans hY')
    rw [Bool.not_eq_false, hOnline', Bool.and_eq_true, decide_eq_true_eq, List.mem_singleton] at hOnline
    obtain ⟨owner, hOwner, hIs⟩ := (h.inv.online hBefore hOnline.1).2
    rw [← hSame', hSame] at hOwner
    obtain rfl := Option.some.inj (hP.symm.trans hOwner)
    exact hOnline.2 (Option.some.inj (hIs.symm.trans hSelected))
  have hSet := hGone.setPlayer { player with character := some swap } hPlayer rfl
    (fun hY hSame hOnline => by
      rw [hNobody hY hSame] at hOnline
      contradiction)
    (fun y hY => Option.some.inj hY ▸ hMem) (fun _ => rfl) (fun y hY => hGone.owned hPlayer hY) fun y hY _ => hY
  obtain ⟨swapped, hSwap, hSame⟩ := hGone.owned hPlayer hMem
  have hPlays' := ((Server.Plays.leaves hLeaves).mpr hPlays).mono_setPlayer
    { player with character := some swap } hPlayer rfl
  rw [modifyPlayer_of hPlayer]
  have hOwner : ((s.logout x).setPlayer character.player { player with character := some swap }).player
      swapped.player = some { player with character := some swap } := by simp [hSame]
  refine ⟨hSet.login hSwap (hNobody hSwap hSame) (hSame ▸ hPlays') hOwner rfl, ?_⟩
  rw [login_of (s := (s.logout x).setPlayer character.player { player with character := some swap }) hSwap]
  intro c' client' q other y hFound' hOn' hIn' hQ hOther hY
  replace hOther := (setPlayer_player q).symm.trans hOther
  show y ∈ (s.logout x).characters ++ [swap]
  split at hOther
  · obtain rfl := Option.some.inj hOther
    exact List.mem_append_right _ (List.mem_singleton.mpr (Option.some.inj hY).symm)
  · rename_i hApart
    rw [hLeaves.player] at hOther
    refine List.mem_append_left _ (hLeaves.characters ▸ List.mem_filter.mpr
      ⟨h.inGame (hLeaves.client ▸ hFound') hOn' hIn' hQ hOther hY, decide_eq_true fun hIs => hApart ?_⟩)
    obtain ⟨character', hFoundY, rfl⟩ := h.inv.ownCharacter hOther hY
    rw [List.mem_singleton.mp hIs] at hFoundY
    rw [Option.some.inj (hX.symm.trans hFoundY)]

theorem Kept.trade (h : Kept s) {x : CharId} (hX : x ∈ s.characters) (trading : Bool) {partner : Option CharId}
    (hPartner : ∀ y ∈ partner, y ∈ s.characters) :
    Kept (s.modifyCharacter x fun character => { character with trading, tradePartner := partner }) := by
  obtain ⟨character, hFound, _⟩ := h.inv.listed.mp hX
  rw [modifyCharacter_of hFound]
  exact h.of_inv (h.inv.setTrade hFound trading partner (h.inv.entered hX) fun y hY => h.inv.entered (hPartner y hY))
    (fun hFound hOn hIn => ⟨_, hFound, hOn, hIn, rfl⟩) (fun hP hX => ⟨_, hP, hX⟩) fun _ => id

theorem Kept.step (h : Kept s) {event : Event} {next : Server} (hStep : step s event = some next) : Kept next := by
  cases event with
  | accept =>
      obtain rfl := Option.some.inj hStep
      exact h.accept
  | close c clears =>
      obtain ⟨client, hFound, rfl⟩ := Option.map_eq_some_iff.mp hStep
      exact h.disconnect hFound _
  | bury c =>
      simp only [Dispatch.step] at hStep
      split at hStep
      · rename_i client hFound
        split at hStep
        · contradiction
        · obtain rfl := Option.some.inj hStep
          exact h.bury hFound
      · contradiction
  | initInit c =>
      obtain ⟨hCalled, hNext⟩ := Option.ite_none_right_eq_some.mp hStep
      obtain rfl := Option.some.inj hNext
      exact h.initInit hCalled (by simp)
  | request c kind =>
      simp only [Dispatch.step] at hStep
      split at hStep
      · rename_i client hCalled hFound
        obtain rfl := Option.some.inj hStep
        exact h.request hCalled (by simp) hFound
      · rename_i p client hCalled hFound
        obtain rfl := Option.some.inj hStep
        exact h.request hCalled (by simp) hFound
      · contradiction
  | callback op outcome =>
      simp only [Dispatch.step] at hStep
      split at hStep
      · rename_i client hFound
        obtain ⟨⟨hOp, hNot⟩, hNext⟩ := Option.ite_none_right_eq_some.mp hStep
        obtain rfl := Option.some.inj hNext
        exact h.callback hOp hNot hFound outcome
      · contradiction
  | clear op =>
      obtain ⟨⟨hOp, _⟩, hNext⟩ := Option.ite_none_right_eq_some.mp hStep
      obtain rfl := Option.some.inj hNext
      exact h.clear hOp
  | welcomeRequest c x =>
      simp only [Dispatch.step] at hStep
      split at hStep
      · rename_i p hCalled
        obtain ⟨player, hP, hRest⟩ := Option.bind_eq_some_iff.mp hStep
        obtain ⟨⟨_, hMem⟩, hNext⟩ := Option.ite_none_right_eq_some.mp hRest
        obtain rfl := Option.some.inj hNext
        exact h.welcomeRequest hCalled hP hMem
      · contradiction
  | welcomeMsg c =>
      simp only [Dispatch.step] at hStep
      split at hStep
      · rename_i p hCalled
        obtain ⟨player, hP, hRest⟩ := Option.bind_eq_some_iff.mp hStep
        obtain ⟨x, hX, rfl⟩ := Option.map_eq_some_iff.mp hRest
        exact h.welcomeMsg hCalled hP hX
      · contradiction
  | characterCreate c =>
      simp only [Dispatch.step] at hStep
      split at hStep
      · obtain rfl := Option.some.inj hStep
        exact h.characterCreate ‹_›
      · contradiction
  | characterRemove c x =>
      simp only [Dispatch.step] at hStep
      split at hStep
      · obtain rfl := Option.some.inj hStep
        exact h.characterRemove ‹_› x
      · contradiction
  | duty c swap =>
      simp only [Dispatch.step] at hStep
      split at hStep
      · rename_i x hCalled
        split at hStep
        · rename_i character hX
          obtain ⟨player, hP, hRest⟩ := Option.bind_eq_some_iff.mp hStep
          obtain ⟨hMem, hNext⟩ := Option.ite_none_right_eq_some.mp hRest
          obtain rfl := Option.some.inj hNext
          exact h.duty hCalled hX hP hMem
        · contradiction
      · contradiction
  | trade c family action x trading partner =>
      simp only [Dispatch.step] at hStep
      split at hStep
      · obtain ⟨⟨hMem, hPartner⟩, hNext⟩ := Option.ite_none_right_eq_some.mp hStep
        obtain rfl := Option.some.inj hNext
        exact h.trade hMem trading hPartner
      · contradiction

theorem kept_start : Kept .start where
  inv := inv_start
  inGame hFound := by contradiction

end Steps

/-- A packet of a connected client never comes to a handler that finds nobody, in whatever order clients come and go,
checks of passwords end and characters change: who is called is there, is of the client, and a character that is called
is in the game. -/
theorem always_answered (events : List Event) :
    Always step (fun s => ∀ c client, s.client c = some client → client.connected = true →
      ∀ family action fromQueue, ∃ callee, s.handle client family action fromQueue = .ok callee ∧ s.Belongs c callee)
      .start events :=
  (always_of_invariant (fun _ _ _ h hStep => Kept.step h hStep) kept_start events).mono
    fun _ h _ _ hFound hOn family action fromQueue => h.handle hFound hOn family action fromQueue

example : ((run step .start [.accept, .initInit 0, .request 0 .login, .callback ⟨0, .login, false⟩ (.success 2),
    .clear ⟨0, .login, true⟩, .welcomeRequest 0 2, .welcomeMsg 0, .duty 0 3]).map fun s =>
      (s.characters, s.player 1)) = some ([3], some ⟨some 0, some 3, [2, 3]⟩) := by
  decide +kernel

end Etheos.Dispatch
