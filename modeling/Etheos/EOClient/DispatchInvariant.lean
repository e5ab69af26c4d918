import Etheos.EOClient.Dispatch
import Mathlib.Data.List.Pairwise

/-! What holds of clients, players and characters between two steps, and that each part of a step keeps it. -/
namespace Etheos.Dispatch

open General
open ActionQueues (ClientState AllowStates PacketHandler)

section Facts

variable (s : Server)

/-- The player has a client that is in the game. -/
def Server.Plays (p : PlayerId) : Prop :=
  ∃ player c client, s.player p = some player ∧ player.client = some c ∧ s.client c = some client ∧
    client.state = .playing

/-- The character is one of those of a player that is in the game. -/
def Server.Entered (x : CharId) : Prop :=
  ∃ character player, s.character x = some character ∧ s.player character.player = some player ∧
    x ∈ player.characters ∧ s.Plays character.player

/-- A client holds what its state says. -/
def Server.Fits (client : EOClient) : Prop :=
  match client.state with
  | .uninitialized | .initialized => client.player = none
  | .loggedIn => client.player.isSome
  | .playing => ∃ p player x, client.player = some p ∧ s.player p = some player ∧ player.character = some x

/-- A client waits for an operation. -/
structure Operation.Awaited (op : Operation) (client : EOClient) : Prop where
  pending : client.connected = true → client.asyncOpPending = true
  login : op.kind = .login → op.called = false → client.player = none
  menu : op.kind = .login → op.called = false → client.connected = true → client.state = .initialized

structure Inv : Prop where
  clientOld : ∀ {c client}, s.client c = some client → c < s.fresh
  playerOld : ∀ {p player}, s.player p = some player → p < s.fresh
  characterOld : ∀ {x character}, s.character x = some character → x < s.fresh
  partnerOld : ∀ {x character y}, s.character x = some character → character.tradePartner = some y → y < s.fresh
  operationOld : ∀ {op}, op ∈ s.operations → op.client < s.fresh
  held : ∀ {c client p}, s.client c = some client → client.player = some p →
    ∃ player, s.player p = some player ∧
      (player.client = some c ∨ player.client = none ∧ client.connected = false)
  holder : ∀ {p player c}, s.player p = some player → player.client = some c →
    ∃ client, s.client c = some client ∧ client.player = some p
  single : ∀ {c client c' client' p}, s.client c = some client → s.client c' = some client' → client.player = some p →
    client'.player = some p → c = c'
  fits : ∀ {c client}, s.client c = some client → client.connected = true → s.Fits client
  selected : ∀ {p player x}, s.player p = some player → player.character = some x → x ∈ player.characters
  owned : ∀ {p player x}, s.player p = some player → x ∈ player.characters →
    ∃ character, s.character x = some character ∧ character.player = p
  online : ∀ {x character}, s.character x = some character → character.online = true →
    s.Plays character.player ∧ ∃ player, s.player character.player = some player ∧ player.character = some x
  listed : ∀ {x}, x ∈ s.characters ↔ ∃ character, s.character x = some character ∧ character.online = true
  nodup : s.characters.Nodup
  trading : ∀ {x character}, s.character x = some character → character.trading = true → s.Entered x
  partner : ∀ {x character y}, s.character x = some character → character.tradePartner = some y →
    (s.character y).isSome → s.Entered y
  awaited : ∀ {op client}, op ∈ s.operations → s.client op.client = some client → op.Awaited client
  apart : s.operations.Pairwise fun op other => op.client ≠ other.client

end Facts

variable {s : Server}

theorem inv_start : Inv .start := by
  constructor <;> simp [Server.start]

section Clients

variable {c : ClientId} {client : EOClient}

@[simp] theorem setClient_client (c' : ClientId) :
    (s.setClient c client).client c' = if c' = c then some client else s.client c' := by
  simp [Server.setClient, Function.update_apply]

@[simp] theorem setClient_player : (s.setClient c client).player = s.player := rfl
@[simp] theorem setClient_character : (s.setClient c client).character = s.character := rfl
@[simp] theorem setClient_characters : (s.setClient c client).characters = s.characters := rfl
@[simp] theorem setClient_operations : (s.setClient c client).operations = s.operations := rfl
@[simp] theorem setClient_fresh : (s.setClient c client).fresh = s.fresh := rfl

@[simp] theorem setPlayer_player {p : PlayerId} {player : Player} (p' : PlayerId) :
    (s.setPlayer p player).player p' = if p' = p then some player else s.player p' := by
  simp [Server.setPlayer, Function.update_apply]

@[simp] theorem setPlayer_client {p : PlayerId} {player : Player} : (s.setPlayer p player).client = s.client := rfl
@[simp] theorem setPlayer_character {p : PlayerId} {player : Player} :
    (s.setPlayer p player).character = s.character := rfl
@[simp] theorem setPlayer_characters {p : PlayerId} {player : Player} :
    (s.setPlayer p player).characters = s.characters := rfl
@[simp] theorem setPlayer_operations {p : PlayerId} {player : Player} :
    (s.setPlayer p player).operations = s.operations := rfl
@[simp] theorem setPlayer_fresh {p : PlayerId} {player : Player} : (s.setPlayer p player).fresh = s.fresh := rfl

@[simp] theorem setCharacter_character {x : CharId} {character : Character} (y : CharId) :
    (s.setCharacter x character).character y = if y = x then some character else s.character y := by
  simp [Server.setCharacter, Function.update_apply]

@[simp] theorem setCharacter_client {x : CharId} {character : Character} :
    (s.setCharacter x character).client = s.client := rfl
@[simp] theorem setCharacter_player {x : CharId} {character : Character} :
    (s.setCharacter x character).player = s.player := rfl
@[simp] theorem setCharacter_characters {x : CharId} {character : Character} :
    (s.setCharacter x character).characters = s.characters := rfl
@[simp] theorem setCharacter_operations {x : CharId} {character : Character} :
    (s.setCharacter x character).operations = s.operations := rfl
@[simp] theorem setCharacter_fresh {x : CharId} {character : Character} :
    (s.setCharacter x character).fresh = s.fresh := rfl

theorem modifyClient_of (h : s.client c = some client) (change : EOClient → EOClient) :
    s.modifyClient c change = s.setClient c (change client) := by
  simp [Server.modifyClient, h]

theorem modifyPlayer_of {p : PlayerId} {player : Player} (h : s.player p = some player) (change : Player → Player) :
    s.modifyPlayer p change = s.setPlayer p (change player) := by
  simp [Server.modifyPlayer, h]

theorem modifyCharacter_of {x : CharId} {character : Character} (h : s.character x = some character)
    (change : Character → Character) : s.modifyCharacter x change = s.setCharacter x (change character) := by
  simp [Server.modifyCharacter, h]

/-- What is in the game does not hang on anything but the state of the clients. -/
theorem Server.Plays.mono {s' : Server} {p : PlayerId} (h : s.Plays p) (hPlayer : s'.player p = s.player p)
    (hClient : ∀ c client, s.client c = some client → client.player = some p → client.state = .playing →
      ∃ client', s'.client c = some client' ∧ client'.state = .playing) (hInv : Inv s) : s'.Plays p := by
  obtain ⟨player, c, client, hP, hC, hFound, hState⟩ := h
  obtain ⟨holder, hHolder, hHeld⟩ := hInv.holder hP hC
  obtain rfl := Option.some.inj (hFound.symm.trans hHolder)
  obtain ⟨client', hFound', hState'⟩ := hClient c client hFound hHeld hState
  exact ⟨player, c, client', hPlayer.trans hP, hC, hFound', hState'⟩

/-- A client is changed, but keeps its player. -/
theorem Inv.setClient (h : Inv s) (client : EOClient) {old : EOClient} (hOld : s.client c = some old)
    (hPlayer : client.player = old.player)
    (hPlaying : old.state = .playing → client.state = .playing)
    (hConnected : client.connected = true → old.connected = true)
    (hFits : client.connected = true → s.Fits client)
    (hAwaited : ∀ op ∈ s.operations, op.client = c → op.Awaited client) : Inv (s.setClient c client) := by
  have hPlays : ∀ {p}, s.Plays p → (s.setClient c client).Plays p := fun hP => by
    refine hP.mono rfl (fun c' client' hFound _ hState => ?_) h
    by_cases hSame : c' = c
    · subst hSame
      obtain rfl := Option.some.inj (hOld.symm.trans hFound)
      exact ⟨client, by simp, hPlaying hState⟩
    · exact ⟨client', by simp [hSame, hFound], hState⟩
  have hEntered : ∀ {x}, s.Entered x → (s.setClient c client).Entered x := by
    rintro x ⟨character, player, hX, hP, hMem, hIn⟩
    exact ⟨character, player, hX, hP, hMem, hPlays hIn⟩
  refine
    { h with
      clientOld := ?_, held := ?_, holder := ?_, single := ?_, fits := ?_, online := ?_, trading := ?_, partner := ?_
      awaited := ?_ }
  · intro c' client' hFound
    rw [setClient_client] at hFound
    split at hFound
    · subst_vars
      exact h.clientOld hOld
    · exact h.clientOld hFound
  · intro c' client' p hFound hP
    rw [setClient_client] at hFound
    split at hFound
    · subst_vars
      obtain rfl := Option.some.inj hFound
      obtain ⟨player, hHeld, hMine | ⟨hNone, hGone⟩⟩ := h.held hOld (hPlayer ▸ hP)
      · exact ⟨player, hHeld, .inl hMine⟩
      · exact ⟨player, hHeld, .inr ⟨hNone, Bool.eq_false_iff.mpr fun hOn => by simp [hConnected hOn] at hGone⟩⟩
    · exact h.held hFound hP
  · intro p player c' hP hC
    obtain ⟨holder, hHolder, hHeld⟩ := h.holder hP hC
    by_cases hSame : c' = c
    · subst hSame
      obtain rfl := Option.some.inj (hOld.symm.trans hHolder)
      exact ⟨client, by simp, hPlayer.trans hHeld⟩
    · exact ⟨holder, by simp [hSame, hHolder], hHeld⟩
  · have hWas : ∀ {c' client'}, (s.setClient c client).client c' = some client' →
        ∃ before, s.client c' = some before ∧ client'.player = before.player := fun {c' client'} hFound => by
      rw [setClient_client] at hFound
      split at hFound
      · subst_vars
        obtain rfl := Option.some.inj hFound
        exact ⟨old, hOld, hPlayer⟩
      · exact ⟨client', hFound, rfl⟩
    intro c' client' c'' client'' p hFound' hFound'' hP' hP''
    obtain ⟨before', hBefore', hSame'⟩ := hWas hFound'
    obtain ⟨before'', hBefore'', hSame''⟩ := hWas hFound''
    exact h.single hBefore' hBefore'' (hSame' ▸ hP') (hSame'' ▸ hP'')
  · intro c' client' hFound hOn
    rw [setClient_client] at hFound
    split at hFound
    · obtain rfl := Option.some.inj hFound
      exact hFits hOn
    · exact h.fits hFound hOn
  · intro x character hX hOn
    obtain ⟨hIn, hSelected⟩ := h.online hX hOn
    exact ⟨hPlays hIn, hSelected⟩
  · exact fun hX hOn => hEntered (h.trading hX hOn)
  · exact fun hX hOn hSome => hEntered (h.partner hX hOn hSome)
  · intro op client' hMem hFound
    rw [setClient_client] at hFound
    split at hFound
    · obtain rfl := Option.some.inj hFound
      exact hAwaited op hMem ‹_›
    · exact h.awaited hMem hFound

/-- A client that is closed. -/
theorem Inv.disconnect (h : Inv s) (hOld : s.client c = some client) (pending : Bool) :
    Inv (s.setClient c { client with connected := false, asyncOpPending := pending }) :=
  h.setClient _ hOld rfl id (fun hOn => by contradiction) (fun hOn => by contradiction) fun op hMem hC =>
    have hOp : op.Awaited client := h.awaited hMem (hC.symm ▸ hOld)
    ⟨fun hOn => by contradiction, hOp.login, fun _ _ hOn => by contradiction⟩

end Clients

section Leaving

/-- Characters leave the game, and some of them are deleted. Trades may end with it. -/
structure Server.Leaves (gone deleted : List CharId) (s s' : Server) : Prop where
  client : s'.client = s.client
  player : s'.player = s.player
  operations : s'.operations = s.operations
  fresh : s'.fresh = s.fresh
  characters : s'.characters = s.characters.filter (· ∉ gone)
  kept : ∀ {y character}, s.character y = some character → y ∉ deleted →
    ∃ character', s'.character y = some character' ∧ character'.player = character.player ∧
      character'.online = (character.online && decide (y ∉ gone))
  was : ∀ {y character'}, s'.character y = some character' → y ∉ deleted ∧ ∃ character,
    s.character y = some character ∧ (character'.trading = true → character.trading = true) ∧
      ∀ z, character'.tradePartner = some z → character.tradePartner = some z

/-- Whoever trades is in the game. -/
structure Server.Trades (s : Server) : Prop where
  trading : ∀ {x character}, s.character x = some character → character.trading = true → s.Plays character.player
  partner : ∀ {x character y other}, s.character x = some character → character.tradePartner = some y →
    s.character y = some other → s.Plays other.player

theorem Inv.trades (h : Inv s) : s.Trades where
  trading hX hOn := by
    obtain ⟨character, player, hFound, _, _, hPlays⟩ := h.trading hX hOn
    obtain rfl := Option.some.inj (hX.symm.trans hFound)
    exact hPlays
  partner hX hOn hY := by
    obtain ⟨other, player, hFound, _, _, hPlays⟩ := h.partner hX hOn (by simp [hY])
    obtain rfl := Option.some.inj (hY.symm.trans hFound)
    exact hPlays

theorem Server.Leaves.refl (s : Server) : s.Leaves [] [] s where
  client := rfl
  player := rfl
  operations := rfl
  fresh := rfl
  characters := (List.filter_eq_self.mpr fun _ _ => by simp).symm
  kept hY _ := ⟨_, hY, rfl, by simp⟩
  was hY := ⟨by simp, _, hY, id, fun _ => id⟩

theorem Server.Leaves.trans {gone deleted gone' deleted' : List CharId} {s' s'' : Server}
    (h : s.Leaves gone deleted s') (h' : s'.Leaves gone' deleted' s'') : s.Leaves (gone ++ gone') (deleted ++ deleted') s'' where
  client := h'.client.trans h.client
  player := h'.player.trans h.player
  operations := h'.operations.trans h.operations
  fresh := h'.fresh.trans h.fresh
  characters := by
    rw [h'.characters, h.characters, List.filter_filter]
    refine List.filter_congr fun x _ => ?_
    simp [Bool.and_comm]
  kept hY hNot := by
    rw [List.mem_append, not_or] at hNot
    obtain ⟨next, hNext, hPlayer, hOnline⟩ := h.kept hY hNot.1
    obtain ⟨last, hLast, hPlayer', hOnline'⟩ := h'.kept hNext hNot.2
    refine ⟨last, hLast, hPlayer'.trans hPlayer, ?_⟩
    simp [hOnline', hOnline, Bool.and_assoc]
  was hY := by
    obtain ⟨hNot', next, hNext, hTrading', hPartner'⟩ := h'.was hY
    obtain ⟨hNot, character, hFound, hTrading, hPartner⟩ := h.was hNext
    exact ⟨by simp [hNot, hNot'], character, hFound, hTrading ∘ hTrading', fun z => hPartner z ∘ hPartner' z⟩

theorem Server.Leaves.same {deleted : List CharId} {s' : Server} (h : s.Leaves [] deleted s') :
    s'.characters = s.characters := h.characters.trans (List.filter_eq_self.mpr fun _ _ => by simp)

theorem Server.Plays.leaves {gone deleted : List CharId} {s' : Server} (h : s.Leaves gone deleted s') {p : PlayerId} :
    s'.Plays p ↔ s.Plays p := by
  simp only [Server.Plays, h.client, h.player]

theorem Server.Leaves.trades {gone deleted : List CharId} {s' : Server} (h : s.Leaves gone deleted s')
    (hTrades : s.Trades) : s'.Trades where
  trading hX hOn := by
    obtain ⟨hNot, character, hFound, hTrading, _⟩ := h.was hX
    obtain ⟨next, hNext, hPlayer, _⟩ := h.kept hFound hNot
    obtain rfl := Option.some.inj (hX.symm.trans hNext)
    rw [hPlayer, Server.Plays.leaves h]
    exact hTrades.trading hFound (hTrading hOn)
  partner hX hOn hY := by
    obtain ⟨_, character, hFound, _, hPartner⟩ := h.was hX
    obtain ⟨hNot, other, hOther, _⟩ := h.was hY
    obtain ⟨next, hNext, hPlayer, _⟩ := h.kept hOther hNot
    obtain rfl := Option.some.inj (hY.symm.trans hNext)
    rw [hPlayer, Server.Plays.leaves h]
    exact hTrades.partner hFound (hPartner _ hOn) hOther

/-- A client in the game is not changed by it. -/
theorem setPlaying_of_plays {character : Character} (h : s.Plays character.player) : s.setPlaying character = s := by
  obtain ⟨player, c, client, hP, hC, hFound, hState⟩ := h
  have hSame : { client with state := ClientState.playing } = client := by rw [← hState]
  simp only [Server.setPlaying, hP, Option.bind_some, hC, modifyClient_of hFound, hSame]
  rw [Server.setClient, ← hFound, Function.update_eq_self]

/-- The trade of one character ends. -/
theorem leaves_alone (s : Server) (x : CharId) : s.Leaves [] [] (s.modifyCharacter x (·.alone)) := by
  cases hX : s.character x with
  | none =>
      rw [Server.modifyCharacter, hX]
      exact .refl s
  | some character =>
      rw [modifyCharacter_of hX]
      refine ⟨rfl, rfl, rfl, rfl, (Server.Leaves.refl s).characters, fun {y old} hY _ => ?_,
        fun {y new} hY => ⟨by simp, ?_⟩⟩
      · by_cases hSame : y = x
        · subst hSame
          obtain rfl := Option.some.inj (hX.symm.trans hY)
          exact ⟨character.alone, by simp, rfl, by simp [Character.alone]⟩
        · exact ⟨old, by simp [hSame, hY], rfl, by simp⟩
      · rw [setCharacter_character] at hY
        split at hY
        · subst_vars
          obtain rfl := Option.some.inj hY
          exact ⟨character, hX, by simp [Character.alone], by simp [Character.alone]⟩
        · exact ⟨new, hY, id, fun _ => id⟩

theorem leaves_trade (hTrades : s.Trades) {x : CharId} {character : Character} (hX : s.character x = some character) :
    s.Leaves [] [] (s.leaveTrade x character) := by
  unfold Server.leaveTrade
  split
  · rename_i partner other hTrading hPartner hOther
    rw [hPartner, Option.bind_some] at hOther
    rw [setPlaying_of_plays (hTrades.trading hX hTrading),
      setPlaying_of_plays (hTrades.partner hX hPartner hOther)]
    exact (leaves_alone s partner).trans (leaves_alone _ x)
  · exact .refl s

theorem leaves_logout (hTrades : s.Trades)
    (hListed : ∀ {x}, x ∈ s.characters → ∃ character, s.character x = some character ∧ character.online = true)
    (x : CharId) : s.Leaves [x] [] (s.logout x) := by
  have hStays : x ∉ s.characters → (∀ character, s.character x = some character → character.online = false) →
      s.Leaves [x] [] s := fun hNot hOff =>
    { Server.Leaves.refl s with
      characters := by
        refine (List.filter_eq_self.mpr fun y hMem => ?_).symm
        simp only [List.mem_singleton, decide_eq_true_eq]
        exact fun hSame => hNot (hSame ▸ hMem)
      kept := fun {y character} hY _ => ⟨character, hY, rfl, by
        by_cases hSame : y = x
        · subst hSame
          simp [hOff character hY]
        · simp [hSame]⟩ }
  cases hX : s.character x with
  | none =>
      rw [Server.logout, hX]
      refine hStays (fun hMem => ?_) (by simp [hX])
      obtain ⟨character, hFound, _⟩ := hListed hMem
      rw [hX] at hFound
      contradiction
  | some character =>
      cases hOn : character.online with
      | false =>
          simp only [Server.logout, hX, hOn]
          refine hStays (fun hMem => ?_) fun character' hFound => ?_
          · obtain ⟨character', hFound, hOn'⟩ := hListed hMem
            obtain rfl := Option.some.inj (hX.symm.trans hFound)
            simp [hOn] at hOn'
          · obtain rfl := Option.some.inj (hX.symm.trans hFound)
            exact hOn
      | true =>
          have hTrade := leaves_trade hTrades hX
          obtain ⟨next, hNext, hPlayer, hOnline⟩ := hTrade.kept hX (by simp)
          simp only [Server.logout, hX, hOn, if_true, modifyCharacter_of hNext]
          refine ⟨hTrade.client, hTrade.player, hTrade.operations, hTrade.fresh, ?_, fun {y old} hY _ => ?_,
            fun {y new} hY => ⟨by simp, ?_⟩⟩
          · simp [hTrade.same]
          · by_cases hSame : y = x
            · subst hSame
              obtain rfl := Option.some.inj (hX.symm.trans hY)
              exact ⟨{ next with online := false }, by simp, hPlayer, by simp⟩
            · obtain ⟨later, hLater, hPlayer', hOnline'⟩ := hTrade.kept hY (by simp)
              exact ⟨later, by simp [hSame, hLater], hPlayer', by simpa [hSame] using hOnline'⟩
          · simp only [setCharacter_character] at hY
            split at hY
            · subst_vars
              obtain rfl := Option.some.inj hY
              obtain ⟨_, before, hBefore, hTrading, hPartner⟩ := hTrade.was hNext
              exact ⟨before, hBefore, hTrading, hPartner⟩
            · exact (hTrade.was hY).2

theorem leaves_deleteCharacter (hTrades : s.Trades)
    (hListed : ∀ {x}, x ∈ s.characters → ∃ character, s.character x = some character ∧ character.online = true)
    (x : CharId) : s.Leaves [x] [x] (s.deleteCharacter x) := by
  have h := leaves_logout hTrades hListed x
  have hFound : ∀ y, (s.deleteCharacter x).character y = if y = x then none else (s.logout x).character y := by
    intro y
    simp [Server.deleteCharacter, Function.update_apply]
  refine ⟨h.client, h.player, h.operations, h.fresh, h.characters, fun {y old} hY hNot => ?_, fun {y new} hY => ?_⟩
  · rw [List.mem_singleton] at hNot
    rw [hFound, if_neg hNot]
    exact h.kept hY (by simp)
  · rw [hFound] at hY
    split at hY
    · contradiction
    · exact ⟨by simpa using ‹_›, (h.was hY).2⟩

theorem leaves_deleteCharacters (hTrades : s.Trades)
    (hListed : ∀ {x}, x ∈ s.characters → ∃ character, s.character x = some character ∧ character.online = true)
    (xs : List CharId) : s.Leaves xs xs (xs.foldl Server.deleteCharacter s) := by
  induction xs generalizing s with
  | nil => exact .refl s
  | cons x xs ih =>
      have h := leaves_deleteCharacter hTrades hListed x
      refine h.trans (ih (h.trades hTrades) fun {y} hMem => ?_)
      rw [h.characters, List.mem_filter] at hMem
      obtain ⟨character, hY, hOn⟩ := hListed hMem.1
      have hNot : y ∉ [x] := of_decide_eq_true hMem.2
      obtain ⟨next, hNext, _, hOnline⟩ := h.kept hY hNot
      exact ⟨next, hNext, by rw [hOnline, hOn, decide_eq_true hNot]; rfl⟩

/-- Nobody is deleted. -/
theorem Inv.leaves {gone : List CharId} {s' : Server} (h : Inv s) (hLeaves : s.Leaves gone [] s') : Inv s' := by
  have hBack : ∀ {x}, s.Entered x → s'.Entered x := by
    rintro x ⟨character, player, hX, hP, hMem, hPlays⟩
    obtain ⟨next, hNext, hSame, _⟩ := hLeaves.kept hX (by simp)
    exact ⟨next, player, hNext, by rw [hLeaves.player, hSame]; exact hP, hMem,
      by rw [hSame, Server.Plays.leaves hLeaves]; exact hPlays⟩
  have hWas : ∀ {x character'}, s'.character x = some character' → ∃ character, s.character x = some character ∧
      character'.player = character.player ∧ character'.online = (character.online && decide (x ∉ gone)) := by
    intro x character' hX
    obtain ⟨_, character, hFound, _⟩ := hLeaves.was hX
    obtain ⟨next, hNext, hSame⟩ := hLeaves.kept hFound (by simp)
    obtain rfl := Option.some.inj (hX.symm.trans hNext)
    exact ⟨character, hFound, hSame⟩
  constructor
  · simp only [hLeaves.client, hLeaves.fresh]
    exact h.clientOld
  · simp only [hLeaves.player, hLeaves.fresh]
    exact h.playerOld
  · intro x character' hX
    obtain ⟨character, hFound, _⟩ := hWas hX
    rw [hLeaves.fresh]
    exact h.characterOld hFound
  · intro x character' y hX hY
    obtain ⟨_, character, hFound, _, hPartner⟩ := hLeaves.was hX
    rw [hLeaves.fresh]
    exact h.partnerOld hFound (hPartner y hY)
  · simp only [hLeaves.operations, hLeaves.fresh]
    exact h.operationOld
  · simp only [hLeaves.client, hLeaves.player]
    exact h.held
  · simp only [hLeaves.client, hLeaves.player]
    exact h.holder
  · simp only [hLeaves.client]
    exact h.single
  · intro c client hFound hOn
    rw [hLeaves.client] at hFound
    have hFits := h.fits hFound hOn
    unfold Server.Fits at hFits ⊢
    rwa [hLeaves.player]
  · simp only [hLeaves.player]
    exact h.selected
  · intro p player x hP hMem
    rw [hLeaves.player] at hP
    obtain ⟨character, hX, hSame⟩ := h.owned hP hMem
    obtain ⟨next, hNext, hPlayer, _⟩ := hLeaves.kept hX (by simp)
    exact ⟨next, hNext, hPlayer.trans hSame⟩
  · intro x character' hX hOn
    obtain ⟨character, hFound, hPlayer, hOnline⟩ := hWas hX
    rw [hOnline, Bool.and_eq_true] at hOn
    obtain ⟨hPlays, hSelected⟩ := h.online hFound hOn.1
    rw [hPlayer, hLeaves.player, Server.Plays.leaves hLeaves]
    exact ⟨hPlays, hSelected⟩
  · intro x
    rw [hLeaves.characters, List.mem_filter, h.listed, decide_eq_true_eq]
    constructor
    · rintro ⟨⟨character, hX, hOn⟩, hNot⟩
      obtain ⟨next, hNext, _, hOnline⟩ := hLeaves.kept hX (by simp)
      exact ⟨next, hNext, by rw [hOnline, hOn, decide_eq_true hNot]; rfl⟩
    · rintro ⟨character', hX, hOn⟩
      obtain ⟨character, hFound, _, hOnline⟩ := hWas hX
      rw [hOnline, Bool.and_eq_true, decide_eq_true_eq] at hOn
      exact ⟨⟨character, hFound, hOn.1⟩, hOn.2⟩
  · rw [hLeaves.characters]
    exact h.nodup.filter _
  · intro x character' hX hOn
    obtain ⟨_, character, hFound, hTrading, _⟩ := hLeaves.was hX
    exact hBack (h.trading hFound (hTrading hOn))
  · intro x character' y hX hY hSome
    obtain ⟨_, character, hFound, _, hPartner⟩ := hLeaves.was hX
    obtain ⟨other, hOther⟩ := Option.isSome_iff_exists.mp hSome
    obtain ⟨_, before, hBefore, _⟩ := hLeaves.was hOther
    exact hBack (h.partner hFound (hPartner y hY) (by simp [hBefore]))
  · simp only [hLeaves.operations, hLeaves.client]
    exact h.awaited
  · simp only [hLeaves.operations]
    exact h.apart

theorem Inv.logout (h : Inv s) (x : CharId) : Inv (s.logout x) := h.leaves (leaves_logout h.trades h.listed.mp x)

/-- What belongs to a client is taken out with it. -/
theorem Inv.remove (h : Inv s) {c : ClientId} {client : EOClient} (hC : s.client c = some client)
    {gone : List CharId} {s' : Server} (hLeaves : s.Leaves gone gone s')
    (hGone : ∀ x ∈ gone, ∃ character, s.character x = some character ∧ client.player = some character.player)
    (hAll : ∀ {p player}, s.player p = some player → client.player = some p → ∀ x ∈ player.characters, x ∈ gone) :
    Inv { s' with
      client := Function.update s.client c none
      player := fun p => if client.player = some p then none else s.player p } := by
  have hClient : ∀ {c' client'}, Function.update s.client c none c' = some client' →
      c' ≠ c ∧ s.client c' = some client' :=
    fun {c' client'} hFound => by
      rw [Function.update_apply] at hFound
      split at hFound
      · contradiction
      · exact ⟨‹_›, hFound⟩
  have hOther : ∀ {p player}, (if client.player = some p then none else s.player p) = some player →
      client.player ≠ some p ∧ s.player p = some player := fun {p player} hP => by
    split at hP
    · contradiction
    · exact ⟨‹_›, hP⟩
  have hPlays : ∀ {p}, s.Plays p → client.player ≠ some p → Server.Plays { s' with
      client := Function.update s.client c none
      player := fun p => if client.player = some p then none else s.player p } p := fun {p} hPlays hNot => by
    refine hPlays.mono (if_neg hNot) (fun c' client' hFound hHeld hState => ⟨client', ?_, hState⟩) h
    have hApart : c' ≠ c := fun hSame => by
      subst hSame
      obtain rfl := Option.some.inj (hC.symm.trans hFound)
      exact hNot hHeld
    exact (Function.update_of_ne hApart _ _).trans hFound
  have hKept : ∀ {x character}, s.character x = some character → x ∉ gone →
      ∃ character', s'.character x = some character' ∧ character'.player = character.player ∧ character'.online = character.online := fun hX hNot => by
    obtain ⟨next, hNext, hSame, hOnline⟩ := hLeaves.kept hX hNot
    exact ⟨next, hNext, hSame, by rw [hOnline, decide_eq_true hNot, Bool.and_true]⟩
  have hWas : ∀ {x character'}, s'.character x = some character' →
      x ∉ gone ∧ ∃ character, s.character x = some character ∧ character'.player = character.player ∧ character'.online = character.online := fun {x character'} hX => by
    obtain ⟨hNot, character, hFound, _⟩ := hLeaves.was hX
    obtain ⟨next, hNext, hSame⟩ := hKept hFound hNot
    obtain rfl := Option.some.inj (hX.symm.trans hNext)
    exact ⟨hNot, character, hFound, hSame⟩
  have hEntered : ∀ {x}, s.Entered x → x ∉ gone → Server.Entered { s' with
      client := Function.update s.client c none
      player := fun p => if client.player = some p then none else s.player p } x := by
    rintro x ⟨character, player, hX, hP, hMem, hIn⟩ hNot
    have hApart : client.player ≠ some character.player := fun hSame => hNot (hAll hP hSame x hMem)
    obtain ⟨next, hNext, hSame, _⟩ := hKept hX hNot
    exact ⟨next, player, hNext, by rw [hSame]; exact (if_neg hApart).trans hP, hMem,
      by rw [hSame]; exact hPlays hIn hApart⟩
  refine ⟨fun hFound => ?_, fun hP => ?_, fun hX => ?_, fun hX hY => ?_, fun hMem => ?_, fun hFound hP => ?_,
    fun hP hHolds => ?_, fun hFound hFound' => h.single (hClient hFound).2 (hClient hFound').2, fun hFound hOn => ?_,
    fun hP => h.selected (hOther hP).2, fun hP hMem => ?_, fun hX hOn => ?_, fun {x} => ?_, ?_, fun hX hOn => ?_,
    fun hX hY hSome => ?_, fun hMem hFound => ?_, ?_⟩
  · exact hLeaves.fresh ▸ h.clientOld (hClient hFound).2
  · exact hLeaves.fresh ▸ h.playerOld (hOther hP).2
  · obtain ⟨_, _, hWas, _⟩ := hWas hX
    exact hLeaves.fresh ▸ h.characterOld hWas
  · obtain ⟨_, character, hFound, _, hPartner⟩ := hLeaves.was hX
    exact hLeaves.fresh ▸ h.partnerOld hFound (hPartner _ hY)
  · exact hLeaves.fresh ▸ h.operationOld (hLeaves.operations ▸ hMem)
  · obtain ⟨hApart, hFound⟩ := hClient hFound
    obtain ⟨player, hHeld, hMine⟩ := h.held hFound hP
    exact ⟨player, (if_neg fun hSame => hApart (h.single hFound hC hP hSame)).trans hHeld, hMine⟩
  · obtain ⟨hApart, hP⟩ := hOther hP
    obtain ⟨holder, hHolder, hHeld⟩ := h.holder hP hHolds
    refine ⟨holder, ?_, hHeld⟩
    refine (Function.update_of_ne (fun hSame => ?_) _ _).trans hHolder
    subst hSame
    obtain rfl := Option.some.inj (hC.symm.trans hHolder)
    exact hApart hHeld
  · obtain ⟨hApart, hFound⟩ := hClient hFound
    have hFits := h.fits hFound hOn
    unfold Server.Fits at hFits ⊢
    split at hFits
    · exact hFits
    · exact hFits
    · exact hFits
    · obtain ⟨p, player, x, hP, hHeld, hX⟩ := hFits
      exact ⟨p, player, x, hP, (if_neg fun hSame => hApart (h.single hFound hC hP hSame)).trans hHeld, hX⟩
  · obtain ⟨hApart, hP⟩ := hOther hP
    obtain ⟨character, hX, hSame⟩ := h.owned hP hMem
    obtain ⟨next, hNext, hPlayer, _⟩ := hKept hX fun hIn => by
      obtain ⟨character', hX', hIs⟩ := hGone _ hIn
      obtain rfl := Option.some.inj (hX.symm.trans hX')
      exact hApart (hSame ▸ hIs)
    exact ⟨next, hNext, hPlayer.trans hSame⟩
  · obtain ⟨hNot, character, hFound, hPlayer, hOnline⟩ := hWas hX
    obtain ⟨hIn, player, hP, hSelected⟩ := h.online hFound (hOnline ▸ hOn)
    have hApart : client.player ≠ some character.player := fun hSame =>
      hNot (hAll hP hSame _ (h.selected hP hSelected))
    rw [hPlayer]
    exact ⟨hPlays hIn hApart, player, (if_neg hApart).trans hP, hSelected⟩
  · show x ∈ s'.characters ↔ _
    rw [hLeaves.characters, List.mem_filter, h.listed, decide_eq_true_eq]
    constructor
    · rintro ⟨⟨character, hX, hOn⟩, hNot⟩
      obtain ⟨next, hNext, _, hOnline⟩ := hKept hX hNot
      exact ⟨next, hNext, hOnline.trans hOn⟩
    · rintro ⟨character', hX, hOn⟩
      obtain ⟨hNot, character, hFound, _, hOnline⟩ := hWas hX
      exact ⟨⟨character, hFound, hOnline ▸ hOn⟩, hNot⟩
  · show s'.characters.Nodup
    rw [hLeaves.characters]
    exact h.nodup.filter _
  · obtain ⟨hNot, character, hFound, hTrading, _⟩ := hLeaves.was hX
    exact hEntered (h.trading hFound (hTrading hOn)) hNot
  · obtain ⟨_, character, hFound, _, hPartner⟩ := hLeaves.was hX
    obtain ⟨other, hOther⟩ := Option.isSome_iff_exists.mp hSome
    obtain ⟨hNot, before, hBefore, _⟩ := hWas hOther
    exact hEntered (h.partner hFound (hPartner _ hY) (by simp [hBefore])) hNot
  · exact h.awaited (hLeaves.operations ▸ hMem) (hClient hFound).2
  · show s'.operations.Pairwise _
    rw [hLeaves.operations]
    exact h.apart

/-- A closed client is deleted, and its player with all characters. -/
theorem Inv.bury (h : Inv s) {c : ClientId} {client : EOClient} (hC : s.client c = some client) :
    Inv (s.bury c client) := by
  cases hP : client.player with
  | none =>
      have hRemoved := h.remove hC (.refl s) (by simp) (by simp [hP])
      simpa only [hP, reduceCtorEq, if_false, Server.bury] using hRemoved
  | some p =>
      obtain ⟨player, hFound, _⟩ := h.held hC hP
      have hLeaves := leaves_deleteCharacters h.trades h.listed.mp player.characters
      have hRemoved := h.remove hC hLeaves
        (fun x hMem => by
          obtain ⟨character, hX, hSame⟩ := h.owned hFound hMem
          exact ⟨character, hX, by rw [hSame, hP]⟩)
        (fun {q other} hQ hSame x hMem => by
          obtain rfl := Option.some.inj (hP.symm.trans hSame)
          obtain rfl := Option.some.inj (hFound.symm.trans hQ)
          exact hMem)
      have hRest : (fun q => if some p = some q then none else s.player q) = Function.update s.player p none := by
        funext q
        rw [Function.update_apply]
        by_cases hSame : q = p
        · simp [hSame]
        · simp [hSame, Ne.symm hSame]
      simpa only [Server.bury, hP, hRest, hFound, Server.deletePlayer, hLeaves.client, hLeaves.player] using hRemoved

end Leaving

section Selecting

variable {p : PlayerId} {player : Player}

theorem Server.Plays.mono_setPlayer {q : PlayerId} (h : s.Plays q) (player : Player) {old : Player} (hOld : s.player p = some old)
    (hClient : player.client = old.client) : (s.setPlayer p player).Plays q := by
  obtain ⟨holder, c, client, hQ, hRest⟩ := h
  by_cases hSame : q = p
  · subst hSame
    obtain rfl := Option.some.inj (hOld.symm.trans hQ)
    exact ⟨player, c, client, by simp, hClient.trans hRest.1, hRest.2⟩
  · exact ⟨holder, c, client, by simp [hSame, hQ], hRest⟩

/-- A player is changed, but keeps its client, and selects the character that it has in the game. -/
theorem Inv.setPlayer (h : Inv s) (player : Player) {old : Player} (hOld : s.player p = some old) (hClient : player.client = old.client)
    (hOnline : ∀ {x character}, s.character x = some character → character.player = p → character.online = true →
      player.character = some x)
    (hSelected : ∀ x, player.character = some x → x ∈ player.characters)
    (hStays : old.character.isSome → player.character.isSome)
    (hOwned : ∀ x ∈ player.characters, ∃ character, s.character x = some character ∧ character.player = p)
    (hEntered : ∀ x ∈ old.characters, s.Entered x → x ∈ player.characters) : Inv (s.setPlayer p player) := by
  have hKeeps : ∀ {x}, s.Entered x → (s.setPlayer p player).Entered x := by
    intro x hX
    have hIn := hX
    obtain ⟨character, owner, hFound, hP, hMem, hPlays⟩ := hX
    by_cases hSame : character.player = p
    · rw [hSame] at hP
      obtain rfl := Option.some.inj (hOld.symm.trans hP)
      exact ⟨character, player, hFound, by simp [hSame], hEntered x hMem hIn, hPlays.mono_setPlayer player hOld hClient⟩
    · exact ⟨character, owner, hFound, by simp [hSame, hP], hMem, hPlays.mono_setPlayer player hOld hClient⟩
  have hWas : ∀ {q other}, (s.setPlayer p player).player q = some other →
      q = p ∧ other = player ∨ q ≠ p ∧ s.player q = some other := fun {q other} hQ => by
    rw [setPlayer_player] at hQ
    split at hQ
    · exact .inl ⟨‹_›, (Option.some.inj hQ).symm⟩
    · exact .inr ⟨‹_›, hQ⟩
  refine
    { h with
      playerOld := fun hQ => ?_, held := fun hFound hQ => ?_, holder := fun hQ hHolds => ?_
      fits := fun hFound hOn => ?_
      selected := fun hQ hX => ?_, owned := fun hQ hMem => ?_, online := fun hX hOn => ?_
      trading := fun hX hOn => hKeeps (h.trading hX hOn)
      partner := fun hX hY hSome => hKeeps (h.partner hX hY hSome) }
  · obtain ⟨rfl, rfl⟩ | ⟨_, hQ⟩ := hWas hQ
    · exact h.playerOld hOld
    · exact h.playerOld hQ
  · obtain ⟨holder, hHeld, hMine⟩ := h.held hFound hQ
    rename_i q
    by_cases hSame : q = p
    · subst hSame
      obtain rfl := Option.some.inj (hOld.symm.trans hHeld)
      exact ⟨player, by simp, by rwa [hClient]⟩
    · exact ⟨holder, by simp [hSame, hHeld], hMine⟩
  · obtain ⟨rfl, rfl⟩ | ⟨_, hQ⟩ := hWas hQ
    · exact h.holder hOld (hClient ▸ hHolds)
    · exact h.holder hQ hHolds
  · have hFits := h.fits hFound hOn
    unfold Server.Fits at hFits ⊢
    split at hFits
    · exact hFits
    · exact hFits
    · exact hFits
    · obtain ⟨q, holder, x, hQ, hHeld, hX⟩ := hFits
      by_cases hSame : q = p
      · subst hSame
        obtain rfl := Option.some.inj (hOld.symm.trans hHeld)
        obtain ⟨y, hY⟩ := Option.isSome_iff_exists.mp (hStays (by simp [hX]))
        exact ⟨q, player, y, hQ, by simp, hY⟩
      · exact ⟨q, holder, x, hQ, by simp [hSame, hHeld], hX⟩
  · obtain ⟨rfl, rfl⟩ | ⟨_, hQ⟩ := hWas hQ
    · exact hSelected _ hX
    · exact h.selected hQ hX
  · obtain ⟨rfl, rfl⟩ | ⟨_, hQ⟩ := hWas hQ
    · exact hOwned _ hMem
    · exact h.owned hQ hMem
  · obtain ⟨hPlays, owner, hP, hIs⟩ := h.online hX hOn
    rename_i x character
    refine ⟨hPlays.mono_setPlayer player hOld hClient, ?_⟩
    by_cases hSame : character.player = p
    · exact ⟨player, by simp [hSame], hOnline hX hSame hOn⟩
    · exact ⟨owner, by simp [hSame, hP], hIs⟩

variable {x : CharId} {character : Character}

theorem login_of (hX : s.character x = some character) : s.login x =
    { s.setCharacter x { character with online := true } with characters := s.characters ++ [x] } := by
  rw [Server.login, modifyCharacter_of hX]

/-- The character that is selected comes into the game. -/
theorem Inv.login (h : Inv s) (hX : s.character x = some character) (hOff : character.online = false)
    (hPlays : s.Plays character.player) (hP : s.player character.player = some player)
    (hSelected : player.character = some x) : Inv (s.login x) := by
  rw [login_of hX]
  have hWas : ∀ {y other}, (s.setCharacter x { character with online := true }).character y = some other →
      ∃ before, s.character y = some before ∧ other.player = before.player ∧ other.trading = before.trading ∧
        other.tradePartner = before.tradePartner ∧ (other.online = true → y = x ∨ before.online = true) :=
    fun {y other} hY => by
      rw [setCharacter_character] at hY
      split at hY
      · subst_vars
        obtain rfl := Option.some.inj hY
        exact ⟨character, hX, rfl, rfl, rfl, fun _ => .inl rfl⟩
      · exact ⟨other, hY, rfl, rfl, rfl, .inr⟩
  have hStill : ∀ {y before}, s.character y = some before → ∃ other,
      (s.setCharacter x { character with online := true }).character y = some other ∧ other.player = before.player ∧
        (before.online = true → other.online = true) := fun {y before} hY => by
    by_cases hSame : y = x
    · subst hSame
      obtain rfl := Option.some.inj (hX.symm.trans hY)
      exact ⟨{ character with online := true }, by simp, rfl, fun _ => rfl⟩
    · exact ⟨before, by simp [hSame, hY], rfl, id⟩
  have hKeeps : ∀ {y}, s.Entered y → (s.setCharacter x { character with online := true }).Entered y := by
    rintro y ⟨before, owner, hY, hQ, hMem, hIn⟩
    obtain ⟨other, hOther, hSame, _⟩ := hStill hY
    exact ⟨other, owner, hOther, by rw [hSame]; exact hQ, hMem, by rw [hSame]; exact hIn⟩
  have hNot : x ∉ s.characters := fun hMem => by
    obtain ⟨other, hFound, hOn⟩ := h.listed.mp hMem
    obtain rfl := Option.some.inj (hX.symm.trans hFound)
    rw [hOff] at hOn
    contradiction
  refine
    { h with
      characterOld := fun hY => ?_, partnerOld := fun hY hZ => ?_, owned := fun hQ hMem => ?_
      online := fun hY hOn => ?_
      listed := fun {y} => ?_, nodup := ?_, trading := fun hY hOn => ?_, partner := fun hY hZ hSome => ?_ }
  · obtain ⟨before, hBefore, _⟩ := hWas hY
    exact h.characterOld hBefore
  · obtain ⟨before, hBefore, _, _, hSame, _⟩ := hWas hY
    exact h.partnerOld hBefore (hSame ▸ hZ)
  · obtain ⟨before, hBefore, hSame⟩ := h.owned hQ hMem
    obtain ⟨other, hOther, hSame', _⟩ := hStill hBefore
    exact ⟨other, hOther, hSame'.trans hSame⟩
  · obtain ⟨before, hBefore, hSame, _, _, hOnline⟩ := hWas hY
    rw [hSame]
    obtain rfl | hOn := hOnline hOn
    · obtain rfl := Option.some.inj (hX.symm.trans hBefore)
      exact ⟨hPlays, player, hP, hSelected⟩
    · exact h.online hBefore hOn
  · show y ∈ s.characters ++ [x] ↔ _
    rw [List.mem_append, List.mem_singleton, h.listed]
    constructor
    · rintro (⟨before, hBefore, hOn⟩ | rfl)
      · obtain ⟨other, hOther, _, hStays⟩ := hStill hBefore
        exact ⟨other, hOther, hStays hOn⟩
      · exact ⟨{ character with online := true }, by simp, rfl⟩
    · rintro ⟨other, hOther, hOn⟩
      obtain ⟨before, hBefore, _, _, _, hOnline⟩ := hWas hOther
      obtain hIs | hOn := hOnline hOn
      · exact .inr hIs
      · exact .inl ⟨before, hBefore, hOn⟩
  · refine List.nodup_append.mpr ⟨h.nodup, List.pairwise_singleton .., fun y hMem z hIs hSame => hNot ?_⟩
    rw [List.mem_singleton] at hIs
    exact hIs ▸ hSame ▸ hMem
  · obtain ⟨before, hBefore, _, hSame, _⟩ := hWas hY
    exact hKeeps (h.trading hBefore (hSame ▸ hOn))
  · obtain ⟨before, hBefore, _, _, hSame, _⟩ := hWas hY
    obtain ⟨other, hOther⟩ := Option.isSome_iff_exists.mp hSome
    obtain ⟨before', hBefore', _⟩ := hWas hOther
    exact hKeeps (h.partner hBefore (hSame ▸ hZ) (by simp [hBefore']))

/-- A trade begins or ends between characters in the game. -/
theorem Inv.setTrade (h : Inv s) (hX : s.character x = some character) (trading : Bool) (partner : Option CharId)
    (hIn : s.Entered x) (hPartner : ∀ y ∈ partner, s.Entered y) :
    Inv (s.setCharacter x { character with trading, tradePartner := partner }) := by
  have hWas : ∀ {y other},
      (s.setCharacter x { character with trading, tradePartner := partner }).character y = some other →
      y = x ∧ other = { character with trading, tradePartner := partner } ∨ s.character y = some other :=
    fun {y other} hY => by
      rw [setCharacter_character] at hY
      split at hY
      · exact .inl ⟨‹_›, (Option.some.inj hY).symm⟩
      · exact .inr hY
  have hStill : ∀ {y before}, s.character y = some before → ∃ other,
      (s.setCharacter x { character with trading, tradePartner := partner }).character y = some other ∧
        other.player = before.player ∧ other.online = before.online := fun {y before} hY => by
    by_cases hSame : y = x
    · subst hSame
      obtain rfl := Option.some.inj (hX.symm.trans hY)
      exact ⟨{ character with trading, tradePartner := partner }, by simp, rfl, rfl⟩
    · exact ⟨before, by simp [hSame, hY], rfl, rfl⟩
  have hKeeps : ∀ {y}, s.Entered y →
      (s.setCharacter x { character with trading, tradePartner := partner }).Entered y := by
    rintro y ⟨before, owner, hY, hQ, hMem, hPlays⟩
    obtain ⟨other, hOther, hSame, _⟩ := hStill hY
    exact ⟨other, owner, hOther, by rw [hSame]; exact hQ, hMem, by rw [hSame]; exact hPlays⟩
  refine
    { h with
      characterOld := fun hY => ?_, partnerOld := fun hY hZ => ?_, owned := fun hQ hMem => ?_
      online := fun hY hOn => ?_
      listed := fun {y} => ?_, trading := fun hY hOn => ?_, partner := fun hY hZ hSome => ?_ }
  · obtain ⟨rfl, rfl⟩ | hY := hWas hY
    · exact h.characterOld hX
    · exact h.characterOld hY
  · obtain ⟨rfl, rfl⟩ | hY := hWas hY
    · obtain ⟨other, _, hFound, _⟩ := hPartner _ hZ
      exact h.characterOld hFound
    · exact h.partnerOld hY hZ
  · obtain ⟨before, hBefore, hSame⟩ := h.owned hQ hMem
    obtain ⟨other, hOther, hSame', _⟩ := hStill hBefore
    exact ⟨other, hOther, hSame'.trans hSame⟩
  · obtain ⟨rfl, rfl⟩ | hY' := hWas hY
    · have hOnline := h.online hX hOn
      exact hOnline
    · exact h.online hY' hOn
  · rw [setCharacter_characters, h.listed]
    constructor
    · rintro ⟨before, hBefore, hOn⟩
      obtain ⟨other, hOther, _, hOnline⟩ := hStill hBefore
      exact ⟨other, hOther, hOnline.trans hOn⟩
    · rintro ⟨other, hOther, hOn⟩
      obtain ⟨rfl, rfl⟩ | hOther := hWas hOther
      · exact ⟨character, hX, hOn⟩
      · exact ⟨other, hOther, hOn⟩
  · obtain ⟨rfl, rfl⟩ | hY := hWas hY
    · exact hKeeps hIn
    · exact hKeeps (h.trading hY hOn)
  · obtain ⟨rfl, rfl⟩ | hY' := hWas hY
    · exact hKeeps (hPartner _ hZ)
    · obtain ⟨other, hOther⟩ := Option.isSome_iff_exists.mp hSome
      obtain ⟨rfl, rfl⟩ | hOther' := hWas hOther
      · exact hKeeps (h.partner hY' hZ (by simp [hX]))
      · exact hKeeps (h.partner hY' hZ (by simp [hOther']))

theorem addCharacter_character (p : PlayerId) (x : CharId) :
    (s.addCharacter p).character x = if x = s.fresh then some ⟨p, false, false, none⟩ else s.character x := by
  simp [Server.addCharacter, Function.update_apply]

/-- A new object is not known to anybody. -/
theorem Inv.addCharacter (h : Inv s) (p : PlayerId) : Inv (s.addCharacter p) := by
  have hStill : ∀ {x character}, s.character x = some character → (s.addCharacter p).character x = some character :=
    fun {x character} hX => by rw [addCharacter_character, if_neg (Nat.ne_of_lt (h.characterOld hX)), hX]
  have hWas : ∀ {x character}, (s.addCharacter p).character x = some character →
      x = s.fresh ∧ character = ⟨p, false, false, none⟩ ∨ s.character x = some character := fun {x character} hX => by
    rw [addCharacter_character] at hX
    split at hX
    · exact .inl ⟨‹_›, (Option.some.inj hX).symm⟩
    · exact .inr hX
  have hKeeps : ∀ {x}, s.Entered x → (s.addCharacter p).Entered x := by
    rintro x ⟨character, player, hX, hRest⟩
    exact ⟨character, player, hStill hX, hRest⟩
  refine
    { h with
      clientOld := fun hFound => Nat.lt_succ_of_lt (h.clientOld hFound)
      playerOld := fun hFound => Nat.lt_succ_of_lt (h.playerOld hFound)
      characterOld := fun hX => ?_, partnerOld := fun hX hY => ?_
      operationOld := fun hMem => Nat.lt_succ_of_lt (h.operationOld hMem)
      owned := fun hP hMem => ?_, online := fun hX hOn => ?_, listed := fun {x} => ?_, trading := fun hX hOn => ?_
      partner := fun hX hY hSome => ?_ }
  · obtain ⟨rfl, _⟩ | hX := hWas hX
    · exact Nat.lt_succ_self _
    · exact Nat.lt_succ_of_lt (h.characterOld hX)
  · obtain ⟨_, rfl⟩ | hX := hWas hX
    · contradiction
    · exact Nat.lt_succ_of_lt (h.partnerOld hX hY)
  · obtain ⟨character, hX, hSame⟩ := h.owned hP hMem
    exact ⟨character, hStill hX, hSame⟩
  · obtain ⟨_, rfl⟩ | hX := hWas hX
    · contradiction
    · exact h.online hX hOn
  · show x ∈ s.characters ↔ _
    rw [h.listed]
    constructor
    · rintro ⟨character, hX, hOn⟩
      exact ⟨character, hStill hX, hOn⟩
    · rintro ⟨character, hX, hOn⟩
      obtain ⟨_, rfl⟩ | hX := hWas hX
      · contradiction
      · exact ⟨character, hX, hOn⟩
  · obtain ⟨_, rfl⟩ | hX := hWas hX
    · contradiction
    · exact hKeeps (h.trading hX hOn)
  · obtain ⟨_, rfl⟩ | hX' := hWas hX
    · contradiction
    · obtain ⟨other, hOther⟩ := Option.isSome_iff_exists.mp hSome
      obtain ⟨rfl, _⟩ | hOther' := hWas hOther
      · exact absurd (h.partnerOld hX' hY) (Nat.lt_irrefl _)
      · exact hKeeps (h.partner hX' hY (by simp [hOther']))

theorem newCharacter_of (hP : s.player p = some player) : s.newCharacter p =
    (s.addCharacter p).setPlayer p { player with characters := player.characters ++ [s.fresh] } := by
  have hStill : (s.addCharacter p).player p = some player := hP
  rw [Server.newCharacter, modifyPlayer_of hStill]

theorem Inv.newCharacter (h : Inv s) (hP : s.player p = some player) : Inv (s.newCharacter p) := by
  have hMore := h.addCharacter p
  rw [newCharacter_of hP]
  have hStill : (s.addCharacter p).player p = some player := hP
  refine hMore.setPlayer _ hStill rfl (fun hX hSame hOn => ?_) (fun x hX => ?_) id (fun x hMem => ?_)
    fun x hMem _ => List.mem_append_left _ hMem
  · obtain ⟨_, owner, hOwner, hSelected⟩ := hMore.online hX hOn
    obtain rfl := Option.some.inj (hP.symm.trans (hSame ▸ hOwner))
    exact hSelected
  · exact List.mem_append_left _ (h.selected hP hX)
  · obtain hMem | hMem := List.mem_append.mp hMem
    · exact hMore.owned hP hMem
    · rw [List.mem_singleton] at hMem
      exact ⟨⟨p, false, false, none⟩, by rw [addCharacter_character, if_pos hMem], rfl⟩

theorem addPlayer_player (p : PlayerId) :
    s.addPlayer.player p = if p = s.fresh then some ⟨none, none, []⟩ else s.player p := by
  simp [Server.addPlayer, Function.update_apply]

theorem Inv.addPlayer (h : Inv s) : Inv s.addPlayer := by
  have hStill : ∀ {p player}, s.player p = some player → s.addPlayer.player p = some player := fun {p player} hP => by
    rw [addPlayer_player, if_neg (Nat.ne_of_lt (h.playerOld hP)), hP]
  have hWas : ∀ {p player}, s.addPlayer.player p = some player →
      p = s.fresh ∧ player = ⟨none, none, []⟩ ∨ s.player p = some player := fun {p player} hP => by
    rw [addPlayer_player] at hP
    split at hP
    · exact .inl ⟨‹_›, (Option.some.inj hP).symm⟩
    · exact .inr hP
  have hPlays : ∀ {p}, s.Plays p → s.addPlayer.Plays p := by
    rintro p ⟨player, c, client, hP, hRest⟩
    exact ⟨player, c, client, hStill hP, hRest⟩
  have hKeeps : ∀ {x}, s.Entered x → s.addPlayer.Entered x := by
    rintro x ⟨character, player, hX, hP, hMem, hIn⟩
    exact ⟨character, player, hX, hStill hP, hMem, hPlays hIn⟩
  refine
    { h with
      clientOld := fun hFound => Nat.lt_succ_of_lt (h.clientOld hFound), playerOld := fun hP => ?_
      characterOld := fun hX => Nat.lt_succ_of_lt (h.characterOld hX)
      partnerOld := fun hX hY => Nat.lt_succ_of_lt (h.partnerOld hX hY)
      operationOld := fun hMem => Nat.lt_succ_of_lt (h.operationOld hMem)
      held := fun hFound hP => ?_, holder := fun hP hHolds => ?_, fits := fun hFound hOn => ?_
      selected := fun hP hX => ?_, owned := fun hP hMem => ?_, online := fun hX hOn => ?_
      trading := fun hX hOn => hKeeps (h.trading hX hOn)
      partner := fun hX hY hSome => hKeeps (h.partner hX hY hSome) }
  · obtain ⟨rfl, _⟩ | hP := hWas hP
    · exact Nat.lt_succ_self _
    · exact Nat.lt_succ_of_lt (h.playerOld hP)
  · obtain ⟨player, hHeld, hMine⟩ := h.held hFound hP
    exact ⟨player, hStill hHeld, hMine⟩
  · obtain ⟨_, rfl⟩ | hP := hWas hP
    · contradiction
    · exact h.holder hP hHolds
  · have hFits := h.fits hFound hOn
    unfold Server.Fits at hFits ⊢
    split at hFits
    · exact hFits
    · exact hFits
    · exact hFits
    · obtain ⟨p, player, x, hP, hHeld, hX⟩ := hFits
      exact ⟨p, player, x, hP, hStill hHeld, hX⟩
  · obtain ⟨_, rfl⟩ | hP := hWas hP
    · contradiction
    · exact h.selected hP hX
  · obtain ⟨_, rfl⟩ | hP := hWas hP
    · contradiction
    · exact h.owned hP hMem
  · obtain ⟨hIn, player, hP, hSelected⟩ := h.online hX hOn
    exact ⟨hPlays hIn, player, hStill hP, hSelected⟩

/-- A player that is loaded has no client, and selects nobody. -/
theorem Inv.playerFactory (h : Inv s) (count : Nat) :
    Inv (s.playerFactory count) ∧
      ∃ characters, (s.playerFactory count).player s.fresh = some ⟨none, none, characters⟩ := by
  induction count with
  | zero => exact ⟨h.addPlayer, [], by simp [Server.playerFactory, addPlayer_player]⟩
  | succ count ih =>
      obtain ⟨hInv, characters, hP⟩ := ih
      refine ⟨hInv.newCharacter hP, characters ++ [(s.playerFactory count).fresh], ?_⟩
      show ((s.playerFactory count).newCharacter s.fresh).player s.fresh = _
      rw [newCharacter_of hP, setPlayer_player, if_pos rfl]

/-- The rest is as it was. -/
theorem Inv.playerFactory_rest (h : Inv s) (count : Nat) :
    (s.playerFactory count).client = s.client ∧ (s.playerFactory count).operations = s.operations ∧
      (s.playerFactory count).characters = s.characters ∧
      ∀ p, p ≠ s.fresh → (s.playerFactory count).player p = s.player p := by
  induction count with
  | zero => exact ⟨rfl, rfl, rfl, fun p hApart => by simp [Server.playerFactory, addPlayer_player, hApart]⟩
  | succ count ih =>
      obtain ⟨hClient, hOperations, hCharacters, hPlayer⟩ := ih
      obtain ⟨characters, hP⟩ := (h.playerFactory count).2
      have hSame : s.playerFactory (count + 1) = _ := newCharacter_of hP
      refine ⟨hSame ▸ hClient, hSame ▸ hOperations, hSame ▸ hCharacters, fun p hApart => ?_⟩
      rw [hSame, setPlayer_player, if_neg hApart]
      exact hPlayer p hApart

/-- A client without a player gets one that nobody has. -/
theorem Inv.hold (h : Inv s) {c : ClientId} (client : EOClient) {old : EOClient} {characters : List CharId}
    (hC : s.client c = some old) (hNone : old.player = none) (hP : s.player p = some ⟨none, none, characters⟩)
    (hNobody : ∀ {c' client'}, s.client c' = some client' → client'.player ≠ some p) {link : Option ClientId}
    (hPlayer : client.player = some p) (hLink : link = some c ∨ link = none ∧ client.connected = false)
    (hState : client.connected = true → client.state = .loggedIn)
    (hAwaited : ∀ op ∈ s.operations, op.client = c → op.Awaited client) :
    Inv ((s.setPlayer p ⟨link, none, characters⟩).setClient c client) := by
  have hFree : ∀ {q player}, s.player q = some player → player.client ≠ some c := fun hQ hHolds => by
    obtain ⟨holder, hFound, hHeld⟩ := h.holder hQ hHolds
    obtain rfl := Option.some.inj (hC.symm.trans hFound)
    rw [hNone] at hHeld
    contradiction
  have hStill : ∀ {q player}, s.player q = some player → ∃ player',
      (s.setPlayer p ⟨link, none, characters⟩).player q = some player' ∧ player'.character = player.character ∧
        player'.characters = player.characters ∧ (q ≠ p → player' = player) := fun {q player} hQ => by
    by_cases hSame : q = p
    · subst hSame
      obtain rfl := Option.some.inj (hP.symm.trans hQ)
      exact ⟨⟨link, none, characters⟩, by simp, rfl, rfl, by simp⟩
    · exact ⟨player, by simp [hSame, hQ], rfl, rfl, fun _ => rfl⟩
  have hWas : ∀ {q player}, (s.setPlayer p ⟨link, none, characters⟩).player q = some player →
      (q = p ∧ player = ⟨link, none, characters⟩) ∨ (q ≠ p ∧ s.player q = some player) := fun {q player} hQ => by
    rw [setPlayer_player] at hQ
    split at hQ
    · exact .inl ⟨‹_›, (Option.some.inj hQ).symm⟩
    · exact .inr ⟨‹_›, hQ⟩
  have hClient : ∀ {c' client'},
      ((s.setPlayer p ⟨link, none, characters⟩).setClient c client).client c' = some client' →
      (c' = c ∧ client' = client) ∨ (c' ≠ c ∧ s.client c' = some client') := fun {c' client'} hFound => by
    rw [setClient_client] at hFound
    split at hFound
    · exact .inl ⟨‹_›, (Option.some.inj hFound).symm⟩
    · exact .inr ⟨‹_›, hFound⟩
  have hPlays : ∀ {q}, s.Plays q → ((s.setPlayer p ⟨link, none, characters⟩).setClient c client).Plays q := by
    rintro q ⟨player, c', client', hQ, hHolds, hFound, hIn⟩
    have hApart : c' ≠ c := fun hSame => hFree hQ (hSame ▸ hHolds)
    have hOther : q ≠ p := fun hSame => by
      subst hSame
      obtain rfl := Option.some.inj (hP.symm.trans hQ)
      contradiction
    exact ⟨player, c', client', by simp [hOther, hQ], hHolds, by simp [hApart, hFound], hIn⟩
  have hKeeps : ∀ {x}, s.Entered x → ((s.setPlayer p ⟨link, none, characters⟩).setClient c client).Entered x := by
    rintro x ⟨character, player, hX, hQ, hMem, hIn⟩
    obtain ⟨player', hQ', _, hSame, _⟩ := hStill hQ
    exact ⟨character, player', hX, hQ', hSame ▸ hMem, hPlays hIn⟩
  refine
    { h with
      clientOld := fun hFound => ?_, playerOld := fun hQ => ?_, held := fun hFound hQ => ?_
      holder := fun hQ hHolds => ?_
      single := fun hFound hFound' hQ hQ' => ?_, fits := fun hFound hOn => ?_, selected := fun hQ hX => ?_
      owned := fun hQ hMem => ?_, online := fun hX hOn => ?_, trading := fun hX hOn => hKeeps (h.trading hX hOn)
      partner := fun hX hY hSome => hKeeps (h.partner hX hY hSome), awaited := fun hMem hFound => ?_ }
  · obtain ⟨rfl, _⟩ | ⟨_, hFound⟩ := hClient hFound
    · exact h.clientOld hC
    · exact h.clientOld hFound
  · obtain ⟨rfl, _⟩ | ⟨_, hQ⟩ := hWas hQ
    · exact h.playerOld hP
    · exact h.playerOld hQ
  · obtain ⟨rfl, rfl⟩ | ⟨_, hFound⟩ := hClient hFound
    · obtain rfl := Option.some.inj (hPlayer.symm.trans hQ)
      exact ⟨⟨link, none, characters⟩, by simp, hLink⟩
    · obtain ⟨player, hHeld, hMine⟩ := h.held hFound hQ
      obtain ⟨player', hHeld', _, _, hSame⟩ := hStill hHeld
      obtain rfl := hSame fun hIs => hNobody hFound (hIs ▸ hQ)
      exact ⟨player', hHeld', hMine⟩
  · obtain ⟨rfl, rfl⟩ | ⟨hOther, hQ⟩ := hWas hQ
    · obtain rfl | ⟨rfl, _⟩ := hLink
      · obtain rfl := Option.some.inj hHolds
        exact ⟨client, by simp, hPlayer⟩
      · contradiction
    · obtain ⟨holder, hFound, hHeld⟩ := h.holder hQ hHolds
      exact ⟨holder, by simp [show _ ≠ c from fun hSame => hFree hQ (hSame ▸ hHolds), hFound], hHeld⟩
  · obtain ⟨hSame, rfl⟩ | ⟨_, hOld⟩ := hClient hFound <;> obtain ⟨hSame', rfl⟩ | ⟨_, hOld'⟩ := hClient hFound'
    · exact hSame.trans hSame'.symm
    · exact absurd (hQ'.trans (hQ.symm.trans hPlayer)) (hNobody hOld')
    · exact absurd (hQ.trans (hQ'.symm.trans hPlayer)) (hNobody hOld)
    · exact h.single hOld hOld' hQ hQ'
  · obtain ⟨rfl, rfl⟩ | ⟨_, hFound⟩ := hClient hFound
    · simp [Server.Fits, hState hOn, hPlayer]
    · have hFits := h.fits hFound hOn
      unfold Server.Fits at hFits ⊢
      split at hFits
      · exact hFits
      · exact hFits
      · exact hFits
      · obtain ⟨q, player, x, hQ, hHeld, hX⟩ := hFits
        obtain ⟨player', hHeld', hSame, _⟩ := hStill hHeld
        exact ⟨q, player', x, hQ, hHeld', hSame.trans hX⟩
  · obtain ⟨_, rfl⟩ | ⟨_, hQ⟩ := hWas hQ
    · contradiction
    · exact h.selected hQ hX
  · obtain ⟨rfl, rfl⟩ | ⟨_, hQ⟩ := hWas hQ
    · exact h.owned hP hMem
    · exact h.owned hQ hMem
  · obtain ⟨hIn, player, hQ, hSelected⟩ := h.online hX hOn
    obtain ⟨player', hQ', hSame, _⟩ := hStill hQ
    exact ⟨hPlays hIn, player', hQ', hSame.trans hSelected⟩
  · obtain ⟨hSame, rfl⟩ | ⟨_, hFound⟩ := hClient hFound
    · exact hAwaited _ hMem hSame
    · exact h.awaited hMem hFound

end Selecting

section Operations

variable {c : ClientId} {client : EOClient}

/-- The operations are fewer, or say less. -/
theorem Inv.setOperations (h : Inv s) {operations : List Operation}
    (hFrom : ∀ op ∈ operations, ∃ old ∈ s.operations, old.client = op.client ∧
      ∀ client, old.Awaited client → op.Awaited client)
    (hApart : operations.Pairwise fun op other => op.client ≠ other.client) : Inv { s with operations } :=
  { h with
    operationOld := fun hMem => by
      obtain ⟨old, hOld, hSame, _⟩ := hFrom _ hMem
      exact hSame ▸ h.operationOld hOld
    awaited := fun hMem hFound => by
      obtain ⟨old, hOld, hSame, hAwaited⟩ := hFrom _ hMem
      exact hAwaited _ (h.awaited hOld (hSame.symm ▸ hFound))
    apart := hApart }

theorem Inv.eq_of_client (h : Inv s) {op other : Operation} (hMem : op ∈ s.operations) (hMem' : other ∈ s.operations)
    (hSame : op.client = other.client) : op = other := by
  have hSymm : Std.Symm fun op other : Operation => op.client ≠ other.client := ⟨fun _ _ hNe => hNe.symm⟩
  by_contra hApart
  exact h.apart.forall hMem hMem' hApart hSame

/-- A new operation is asked for. -/
theorem Inv.execute (h : Inv s) (hC : s.client c = some client) (hOn : client.connected = true) (kind : Kind)
    (hLogin : kind = .login → client.state = .initialized) : Inv (s.execute c client kind) := by
  unfold Server.execute
  split
  · exact h.disconnect hC false
  · rename_i hPending
    have hNone : ∀ op ∈ s.operations, op.client ≠ c := fun op hMem hSame =>
      hPending ((h.awaited hMem (hSame.symm ▸ hC)).pending hOn)
    have hSet := h.setClient { client with asyncOpPending := true } hC rfl id id
      (fun _ => (h.fits hC hOn : s.Fits client))
      fun op hMem hSame => absurd hSame (hNone op hMem)
    refine
      { hSet with
        operationOld := fun hMem => ?_, awaited := fun hMem hFound => ?_, apart := ?_ }
    · obtain hMem | hMem := List.mem_append.mp hMem
      · exact h.operationOld hMem
      · rw [List.mem_singleton.mp hMem]
        exact h.clientOld hC
    · obtain hMem | hMem := List.mem_append.mp hMem
      · exact hSet.awaited hMem hFound
      · obtain rfl := List.mem_singleton.mp hMem
        rw [setClient_client, if_pos rfl] at hFound
        obtain rfl := Option.some.inj hFound
        refine ⟨fun _ => rfl, fun hKind _ => ?_, fun hKind _ _ => hLogin hKind⟩
        have hFits := h.fits hC hOn
        rwa [Server.Fits, hLogin hKind] at hFits
    · refine List.pairwise_append.mpr ⟨h.apart, List.pairwise_singleton .., fun op hMem other hIs => ?_⟩
      rw [List.mem_singleton.mp hIs]
      exact hNone op hMem

/-- The callbacks of an operation have run. -/
theorem Inv.markCalled (h : Inv s) (op : Operation) : Inv (s.markCalled op) := by
  refine h.setOperations (fun op' hMem => ?_) ?_
  · obtain ⟨other, hOther, rfl⟩ := List.mem_map.mp hMem
    refine ⟨other, hOther, ?_⟩
    split
    · subst_vars
      exact ⟨rfl, fun _ hOld => ⟨hOld.pending, fun _ hNot => by contradiction, fun _ hNot => by contradiction⟩⟩
    · exact ⟨rfl, fun _ => id⟩
  · rw [List.pairwise_map]
    refine h.apart.imp fun {op' other} hApart => ?_
    split <;> split <;> simp_all

/-- The operation of a client after its callbacks. -/
theorem Inv.called_of_client (h : Inv s) {op : Operation} (hOp : op ∈ s.operations) :
    ∀ other ∈ (s.markCalled op).operations, other.client = op.client → other.called = true := by
  intro other hMem hSame
  obtain ⟨before, hBefore, rfl⟩ := List.mem_map.mp hMem
  by_cases hIs : before = op
  · rw [if_pos hIs]
  · rw [if_neg hIs] at hSame
    exact absurd (h.eq_of_client hBefore hOp hSame) hIs

theorem Inv.callback (h : Inv s) {op : Operation} (hOp : op ∈ s.operations) (hNot : op.called = false)
    (hC : s.client op.client = some client) (outcome : Outcome) : Inv (s.callback op client outcome) := by
  have hAwaited := h.awaited hOp hC
  have hMarked := h.markCalled op
  have hCalled := h.called_of_client hOp
  unfold Server.callback
  simp only
  split
  · rename_i kind outcome count hKind
    have hNone := hAwaited.login hKind hNot
    obtain ⟨hLoaded, characters, hP⟩ := hMarked.playerFactory count
    obtain ⟨hClient, hOperations, -⟩ := hMarked.playerFactory_rest count
    have hC' := (congrFun hClient op.client).trans hC
    have hNobody : ∀ {c' client'}, ((s.markCalled op).playerFactory count).client c' = some client' →
        client'.player ≠ some s.fresh := fun hFound hHeld => by
      rw [hClient] at hFound
      obtain ⟨player, hOld, _⟩ := h.held hFound hHeld
      exact Nat.lt_irrefl _ (h.playerOld hOld)
    rw [Server.loggedIn]
    split
    · rename_i hOn
      rw [modifyPlayer_of hP]
      refine hLoaded.hold _ hC' hNone hP hNobody rfl (.inl rfl) (fun _ => rfl) fun other hMem hSame => ?_
      rw [hOperations] at hMem
      have hIs := hCalled other hMem hSame
      exact ⟨fun _ => hAwaited.pending hOn, fun _ hNotCalled => by simp [hIs] at hNotCalled,
        fun _ hNotCalled => by simp [hIs] at hNotCalled⟩
    · rename_i hOff
      have hHeld := hLoaded.hold { client with player := some s.fresh } hC' hNone hP hNobody rfl
        (.inr ⟨rfl, by simpa using hOff⟩) (fun hOn => absurd hOn hOff) fun other hMem hSame => by
          rw [hOperations] at hMem
          have hIs := hCalled other hMem hSame
          exact ⟨fun hOn => absurd hOn hOff, fun _ hNotCalled => by simp [hIs] at hNotCalled,
            fun _ hNotCalled => by simp [hIs] at hNotCalled⟩
      have hSame : ((s.markCalled op).playerFactory count).setPlayer (s.markCalled op).fresh ⟨none, none, characters⟩ =
          (s.markCalled op).playerFactory count := by
        rw [Server.setPlayer, ← hP]
        exact congrArg (fun player => { (s.markCalled op).playerFactory count with player })
          (Function.update_eq_self ..)
      rwa [hSame] at hHeld
  · exact hMarked.disconnect hC client.asyncOpPending
  · exact hMarked

theorem Inv.clear (h : Inv s) {op : Operation} (hOp : op ∈ s.operations) :
    Inv { s.modifyClient op.client fun client => { client with asyncOpPending := false } with
      operations := s.operations.filter (· ≠ op) } := by
  have hLess : Inv { s with operations := s.operations.filter (· ≠ op) } :=
    h.setOperations (fun other hMem => ⟨other, (List.mem_filter.mp hMem).1, rfl, fun _ => id⟩) (h.apart.filter _)
  cases hC : s.client op.client with
  | none =>
      rw [Server.modifyClient, hC]
      exact hLess
  | some client =>
      rw [modifyClient_of hC]
      refine hLess.setClient { client with asyncOpPending := false } hC rfl id id
        (fun hOn => (h.fits hC hOn : s.Fits client)) fun other hMem hSame => ?_
      rw [List.mem_filter, decide_eq_true_eq] at hMem
      exact absurd (h.eq_of_client hMem.1 hOp hSame) hMem.2

end Operations

end Etheos.Dispatch
