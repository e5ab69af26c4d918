import Etheos.Login.Login

/-! One session for an account. The flag of a username keeps a second check
away, but the request that is kept away clears the flag. -/
namespace Etheos.Login

open Server

/-- The client holds a player with the username, or a check of it is running. -/
def Session (s : Server) (username : Username) (c : ClientId) : Prop :=
  (s.client c).player = some username ∨ (c, username) ∈ s.checks

/-- No two clients share a session. -/
def Unique (s : Server) : Prop :=
  ∀ username c d, validName username = true → Session s username c → Session s username d → c = d

/-- Clients with a session are among the clients of the server. -/
structure Sound (s : Server) : Prop where
  unique : Unique s
  listed : ∀ username c, Session s username c → c ∈ s.clients

/-- The request passes everything in front of `PlayerOnline`. -/
def LoginRequest.Reaches (config : Config) (request : LoginRequest) : Prop :=
  request.username.length ≤ config.accountMaxLength ∧
    request.password.length ≤ config.passwordMaxLength ∧ request.banned = false ∧
    config.accountMinLength ≤ (lowercase request.username).length ∧
    config.passwordMinLength ≤ (config.seoseStrHash request.password).length ∧
    request.characters < config.maxPlayers

/-- A check is started for a username of which another client has a check
running, because its flag has been cleared. Or a check loads the player of
another username, of which another client has a session. -/
def Harmful (config : Config) (s : Server) : Event → Prop
  | .request c request =>
      let username := lowercase request.username
      request.Reaches config ∧ validName username = true ∧ s.playerOnline username = false ∧
        s.loginBusy config = false ∧ (s.client c).asyncOpPending = false ∧
        ∃ d, d ≠ c ∧ (d, username) ∈ s.checks
  | .complete c username (.success (some row)) =>
      row ≠ username ∧ validName row = true ∧ ∃ d, d ≠ c ∧ Session s row d
  | _ => False

/-- The clients, their players and the running checks are the same. -/
structure SameSessions (s s' : Server) : Prop where
  player : ∀ c, (s'.client c).player = (s.client c).player
  checks : s'.checks = s.checks
  clients : s'.clients = s.clients

theorem SameSessions.refl (s : Server) : SameSessions s s := ⟨fun _ => rfl, rfl, rfl⟩

theorem SameSessions.trans {s s' s'' : Server} (h : SameSessions s s')
    (h' : SameSessions s' s'') : SameSessions s s'' :=
  ⟨fun c => (h'.player c).trans (h.player c), h'.checks.trans h.checks,
    h'.clients.trans h.clients⟩

theorem SameSessions.session {s s' : Server} (h : SameSessions s s') (username : Username)
    (c : ClientId) : Session s' username c ↔ Session s username c := by
  rw [Session, Session, h.player, h.checks]

theorem SameSessions.unique {s s' : Server} (h : SameSessions s s') : Unique s' ↔ Unique s := by
  simp only [Unique, h.session]

section Frames

variable (config : Config) (s : Server) (c : ClientId)

theorem setClient_sessions {client : LoginClient} (h : client.player = (s.client c).player) :
    SameSessions s (s.setClient c client) := by
  refine ⟨fun x => ?_, rfl, rfl⟩
  by_cases hx : x = c
  · subst hx
    simp [setClient, h]
  · simp [setClient, hx]

theorem close_sessions : SameSessions s (s.close c) := setClient_sessions s c rfl

theorem asyncOpPending_sessions (pending : Bool) :
    SameSessions s (s.asyncOpPending c pending) := setClient_sessions s c rfl

theorem executeThrows_sessions : SameSessions s (s.executeThrows c) :=
  (asyncOpPending_sessions s c false).trans (close_sessions _ c)

theorem failureCallback_sessions (username : Username) :
    SameSessions s (failureCallback config s c username) := by
  have hFlag : SameSessions s (s.setPendingLogin username false) := ⟨fun _ => rfl, rfl, rfl⟩
  unfold failureCallback
  split
  · dsimp only
    split
    · refine (hFlag.trans (setClient_sessions _ c ?_)).trans (close_sessions _ c)
      rfl
    · exact hFlag.trans (setClient_sessions _ c rfl)
  · exact hFlag

/-- A check is started for a client with no other operation running, unless too
many are. -/
theorem checkCredential_sessions (username : Username) :
    SameSessions s (checkCredential config s c username) ∨
      s.loginBusy config = false ∧ (s.client c).asyncOpPending = false ∧
        SameSessions { s with checks := s.checks ++ [(c, username)] }
          (checkCredential config s c username) := by
  unfold checkCredential
  split
  · left
    split
    · exact executeThrows_sessions s c
    · exact ((asyncOpPending_sessions s c true).trans
        (failureCallback_sessions config _ c username)).trans (asyncOpPending_sessions _ c false)
  · next hBusy =>
      have hCount : SameSessions s { s with processCount := s.processCount + 1 } :=
        ⟨fun _ => rfl, rfl, rfl⟩
      dsimp only
      split
      · exact Or.inl (hCount.trans (executeThrows_sessions _ c))
      · next hFree =>
          refine Or.inr ⟨by simpa using hBusy, by simpa using hFree, fun d => ?_, rfl, rfl⟩
          exact (asyncOpPending_sessions { s with processCount := s.processCount + 1 } c
            true).player d

/-- A request is turned away in front of `PlayerOnline`, by it, or goes on to the check of
the credentials. -/
theorem loginRequest_cases (request : LoginRequest) :
    (¬request.Reaches config ∧
      (s.loginRequest config c request = s ∨ s.loginRequest config c request = s.close c)) ∨
    (request.Reaches config ∧ s.playerOnline (lowercase request.username) = true ∧
      s.loginRequest config c request =
        failureCallback config s c (lowercase request.username)) ∨
    (request.Reaches config ∧ s.playerOnline (lowercase request.username) = false ∧
      s.loginRequest config c request =
        checkCredential config (s.setPendingLogin (lowercase request.username) true) c
          (lowercase request.username)) := by
  by_cases hReaches : request.Reaches config
  · have ⟨hName, hPassword, hBanned, hNameMin, hPasswordMin, hFull⟩ := hReaches
    have hRequest : s.loginRequest config c request =
        if s.playerOnline (lowercase request.username) then
          failureCallback config s c (lowercase request.username)
        else checkCredential config (s.setPendingLogin (lowercase request.username) true) c
          (lowercase request.username) := by
      unfold loginRequest
      rw [if_neg (by omega)]
      dsimp only
      rw [if_neg (by simp [hBanned]), if_neg (by omega), if_neg (by omega), if_neg (by omega)]
    cases hOnline : s.playerOnline (lowercase request.username) with
    | true =>
        refine .inr (.inl ⟨hReaches, rfl, ?_⟩)
        rw [hRequest, if_pos hOnline]
    | false =>
        refine .inr (.inr ⟨hReaches, rfl, ?_⟩)
        rw [hRequest, if_neg (by simp [hOnline])]
  · refine .inl ⟨hReaches, ?_⟩
    unfold loginRequest
    split
    · exact .inl rfl
    · next hLong =>
        dsimp only
        split
        · exact .inr rfl
        · next hBanned =>
            split
            · exact .inl rfl
            · split
              · exact .inl rfl
              · split
                · exact .inr rfl
                · refine absurd ⟨?_, ?_, by simpa using hBanned, ?_, ?_, ?_⟩ hReaches
                  all_goals omega

/-- A request changes the sessions only when it starts a check. -/
theorem loginRequest_sessions (request : LoginRequest) :
    SameSessions s (s.loginRequest config c request) ∨
      request.Reaches config ∧ s.playerOnline (lowercase request.username) = false ∧
        s.loginBusy config = false ∧ (s.client c).asyncOpPending = false ∧
        SameSessions { s with checks := s.checks ++ [(c, lowercase request.username)] }
          (s.loginRequest config c request) := by
  obtain ⟨-, hSame | hClosed⟩ | ⟨-, -, hFailed⟩ | ⟨hReaches, hOnline, hCheck⟩ :=
    loginRequest_cases config s c request
  · exact .inl (hSame.symm ▸ .refl s)
  · exact .inl (hClosed.symm ▸ close_sessions s c)
  · exact .inl (hFailed.symm ▸ failureCallback_sessions config s c _)
  · have hFlag : SameSessions s (s.setPendingLogin (lowercase request.username) true) :=
      ⟨fun _ => rfl, rfl, rfl⟩
    rw [hCheck]
    rcases checkCredential_sessions config (s.setPendingLogin (lowercase request.username) true) c
      (lowercase request.username) with hSame | ⟨hBusy, hFree, hNew⟩
    · exact .inl (hFlag.trans hSame)
    · exact .inr ⟨hReaches, hOnline, hBusy, hFree, hNew.player, hNew.checks, hNew.clients⟩

/-- A request that gets past `PlayerOnline` starts a check. -/
theorem loginRequest_starts {request : LoginRequest} (hReaches : request.Reaches config)
    (hOnline : s.playerOnline (lowercase request.username) = false)
    (hBusy : s.loginBusy config = false) (hFree : (s.client c).asyncOpPending = false) :
    SameSessions { s with checks := s.checks ++ [(c, lowercase request.username)] }
      (s.loginRequest config c request) := by
  obtain ⟨hNot, -⟩ | ⟨-, hHeld, -⟩ | ⟨-, -, hCheck⟩ := loginRequest_cases config s c request
  · exact absurd hReaches hNot
  · exact absurd (hHeld.symm.trans hOnline) (by decide)
  · have hBusy' : (s.setPendingLogin (lowercase request.username) true).loginBusy config = false :=
      hBusy
    have hFree' : ((s.setPendingLogin (lowercase request.username) true).client
        c).asyncOpPending = false := hFree
    rw [hCheck, checkCredential, if_neg (by simp [hBusy'])]
    dsimp only
    rw [if_neg (by simp [hFree'])]
    refine ⟨fun d => ?_, rfl, rfl⟩
    exact (asyncOpPending_sessions (s.setPendingLogin (lowercase request.username) true) c
      true).player d

end Frames

variable {config : Config} {s : Server}

/-- The player is loaded under the name in the row. -/
theorem complete_success (config : Config) (s : Server) (c : ClientId) (username row : Username) :
    (s.complete config c username (.success (some row))).checks = s.checks.erase (c, username) ∧
      (s.complete config c username (.success (some row))).clients = s.clients ∧
      ∀ d, ((s.complete config c username (.success (some row))).client d).player =
        if d = c then some row else (s.client d).player := by
  refine ⟨?_, ?_, fun d => ?_⟩
  · simp only [complete]
    split <;> rfl
  · simp only [complete]
    split <;> rfl
  · by_cases hd : d = c
    · subst hd
      simp only [complete]
      split <;> simp [asyncOpPending, setClient, setPendingLogin]
    · simp only [complete]
      split <;> simp [asyncOpPending, setClient, setPendingLogin, hd]

/-- A check that loads no player only ends. -/
theorem complete_sessions (config : Config) (s : Server) (c : ClientId) (username : Username)
    {outcome : Outcome}
    (h : ∀ row, outcome ≠ .success (some row)) :
    SameSessions { s with checks := s.checks.erase (c, username) }
      (s.complete config c username outcome) := by
  have hEnd (s' : Server) : SameSessions s'
      { s'.asyncOpPending c false with
        processCount := (s'.asyncOpPending c false).processCount - 1 } :=
    ⟨(asyncOpPending_sessions s' c false).player, rfl, rfl⟩
  match outcome with
  | .thrown => exact hEnd _
  | .failure => exact (failureCallback_sessions config _ c username).trans (hEnd _)
  | .success none => exact hEnd _
  | .success (some row) => exact absurd rfl (h row)

/-- A session after a check has ended is one that was there before, or that of
the client with the loaded player. -/
theorem complete_session {c : ClientId} {username : Username} {outcome : Outcome}
    {name : Username} {d : ClientId} (h : Session (s.complete config c username outcome) name d) :
    Session s name d ∨ (outcome = .success (some name) ∧ d = c) := by
  by_cases hRow : ∃ row, outcome = .success (some row)
  · obtain ⟨row, rfl⟩ := hRow
    obtain ⟨hChecks, _, hPlayer⟩ := complete_success config s c username row
    rw [Session, hChecks, hPlayer] at h
    rcases h with hHolds | hCheck
    · by_cases hd : d = c
      · rw [if_pos hd] at hHolds
        exact Or.inr ⟨by rw [Option.some.inj hHolds], hd⟩
      · rw [if_neg hd] at hHolds
        exact Or.inl (Or.inl hHolds)
    · exact Or.inl (Or.inr (List.mem_of_mem_erase hCheck))
  · have hSame := complete_sessions config s c username
      (fun row hEq => hRow ⟨row, hEq⟩)
    rcases (hSame.session name d).mp h with hPlayer | hCheck
    · exact Or.inl (Or.inl hPlayer)
    · exact Or.inl (Or.inr (List.mem_of_mem_erase hCheck))

/-- With no two clients sharing a session before, none do behind a check that
loads the player it was started for. -/
theorem Unique.complete (h : Unique s) {c : ClientId} {username : Username} {outcome : Outcome}
    (hCheck : (c, username) ∈ s.checks)
    (hGood : ¬Harmful config s (.complete c username outcome)) :
    Unique (s.complete config c username outcome) := by
  -- The client with the loaded player and any client with an earlier session.
  have hLoaded (name : Username) (d : ClientId) (hValid : validName name = true)
      (hOutcome : outcome = .success (some name)) (hOld : Session s name d) : d = c := by
    subst hOutcome
    by_cases hName : name = username
    · exact h name d c hValid hOld (Or.inr (hName ▸ hCheck))
    · by_contra hd
      exact hGood ⟨hName, hValid, d, hd, hOld⟩
  intro name d e hValid hd he
  rcases complete_session hd with hOld | ⟨hOutcome, rfl⟩
  · rcases complete_session he with hOld' | ⟨hOutcome, rfl⟩
    · exact h name d e hValid hOld hOld'
    · exact hLoaded name d hValid hOutcome hOld
  · rcases complete_session he with hOld' | ⟨_, rfl⟩
    · exact (hLoaded name e hValid hOutcome hOld').symm
    · rfl

/-- The sessions behind a request that starts a check. -/
theorem session_append {s' : Server} {c : ClientId} {username : Username}
    (h : SameSessions { s with checks := s.checks ++ [(c, username)] } s') (name : Username)
    (d : ClientId) : Session s' name d ↔ Session s name d ∨ (d = c ∧ name = username) := by
  rw [h.session, Session, List.mem_append, List.mem_singleton, Prod.mk.injEq, ← or_assoc]
  rfl

/-- Nobody who is listed holds a player that is not online. -/
theorem Sound.not_holds (h : Sound s) {username : Username} (hValid : validName username = true)
    (hOnline : s.playerOnline username = false) (c : ClientId) :
    (s.client c).player ≠ some username := by
  intro hHolds
  have hListed := h.listed username c (Or.inl hHolds)
  have hAny : s.clients.any (fun c => decide ((s.client c).player = some username)) = true :=
    List.any_eq_true.mpr ⟨c, hListed, by simpa using hHolds⟩
  simp [playerOnline, hValid, hAny] at hOnline

theorem SameSessions.sound {s' : Server} (h : SameSessions s s') (hSound : Sound s) :
    Sound s' := by
  refine ⟨h.unique.mpr hSound.unique, fun username c hSession => ?_⟩
  rw [h.clients]
  exact hSound.listed username c ((h.session username c).mp hSession)

theorem Sound.loginRequest (h : Sound s) {c : ClientId} {request : LoginRequest}
    (hListed : c ∈ s.clients) (hGood : ¬Harmful config s (.request c request)) :
    Sound (s.loginRequest config c request) := by
  rcases loginRequest_sessions config s c request with
    hSame | ⟨hReaches, hOnline, hBusy, hFree, hStarted⟩
  · exact hSame.sound h
  · have hNew := session_append hStarted
    -- The new check meets no earlier session of the username.
    have hOther (d : ClientId) (hValid : validName (lowercase request.username) = true)
        (hOld : Session s (lowercase request.username) d) : d = c := by
      by_contra hd
      rcases hOld with hHolds | hCheck
      · exact h.not_holds hValid hOnline d hHolds
      · exact hGood ⟨hReaches, hValid, hOnline, hBusy, hFree, d, hd, hCheck⟩
    refine ⟨fun name d e hValid hd he => ?_, fun name d hd => ?_⟩
    · rcases (hNew name d).mp hd with hOld | ⟨rfl, rfl⟩
      · rcases (hNew name e).mp he with hOld' | ⟨rfl, rfl⟩
        · exact h.unique name d e hValid hOld hOld'
        · exact hOther d hValid hOld
      · rcases (hNew _ e).mp he with hOld' | ⟨rfl, _⟩
        · exact (hOther e hValid hOld').symm
        · rfl
    · rw [hStarted.clients]
      rcases (hNew name d).mp hd with hOld | ⟨rfl, _⟩
      · exact h.listed name d hOld
      · exact hListed

theorem Sound.complete (h : Sound s) {c : ClientId} {username : Username} {outcome : Outcome}
    (hCheck : (c, username) ∈ s.checks)
    (hGood : ¬Harmful config s (.complete c username outcome)) :
    Sound (s.complete config c username outcome) := by
  have hClients : (s.complete config c username outcome).clients = s.clients := by
    by_cases hRow : ∃ row, outcome = .success (some row)
    · obtain ⟨row, rfl⟩ := hRow
      exact (complete_success config s c username row).2.1
    · exact (complete_sessions config s c username (fun row hEq => hRow ⟨row, hEq⟩)).clients
  refine ⟨h.unique.complete hCheck hGood, fun name d hd => ?_⟩
  rw [hClients]
  rcases complete_session hd with hOld | ⟨_, rfl⟩
  · exact h.listed name d hOld
  · exact h.listed username d (Or.inr hCheck)

/-- A client that is set up or deleted has no session. -/
theorem Sound.reset (h : Sound s) {c : ClientId} {client : LoginClient}
    (hPlayer : client.player = none) (hChecks : ∀ username, (c, username) ∉ s.checks)
    {clients : List ClientId} (hClients : ∀ d, d ∈ s.clients → d ≠ c → d ∈ clients) :
    Sound { s.setClient c client with clients := clients } := by
  have hOld (name : Username) (d : ClientId)
      (hd : Session { s.setClient c client with clients := clients } name d) :
      Session s name d ∧ d ≠ c := by
    by_cases hdc : d = c
    · subst hdc
      rcases hd with hHolds | hCheck
      · simp [setClient, hPlayer] at hHolds
      · exact absurd hCheck (hChecks name)
    · refine ⟨?_, hdc⟩
      rcases hd with hHolds | hCheck
      · exact Or.inl (by simpa [setClient, hdc] using hHolds)
      · exact Or.inr hCheck
  refine ⟨fun name d e hValid hd he => ?_, fun name d hd => ?_⟩
  · exact h.unique name d e hValid (hOld name d hd).1 (hOld name e he).1
  · exact hClients d (h.listed name d (hOld name d hd).1) (hOld name d hd).2

theorem step_sound (s : Server) (event : Event) (next : Server) (h : Sound s)
    (hGood : ¬Harmful config s event) (hStep : step config s event = some next) : Sound next := by
  cases event with
  | connect c =>
      obtain ⟨hFresh, hNext⟩ := Option.ite_none_left_eq_some.mp hStep
      obtain rfl := Option.some.inj hNext
      refine h.reset rfl (fun username hCheck => hFresh (h.listed username c (Or.inr hCheck))) ?_
      exact fun d hd _ => List.mem_append_left _ hd
  | request c request =>
      obtain ⟨⟨hListed, _⟩, hNext⟩ := Option.ite_none_right_eq_some.mp hStep
      obtain rfl := Option.some.inj hNext
      exact h.loginRequest hListed hGood
  | complete c username outcome =>
      obtain ⟨hCheck, hNext⟩ := Option.ite_none_right_eq_some.mp hStep
      obtain rfl := Option.some.inj hNext
      exact h.complete hCheck hGood
  | close c =>
      obtain ⟨_, hNext⟩ := Option.ite_none_right_eq_some.mp hStep
      obtain rfl := Option.some.inj hNext
      exact (close_sessions s c).sound h
  | bury c =>
      obtain ⟨⟨_, _, _, hNone⟩, hNext⟩ := Option.ite_none_right_eq_some.mp hStep
      obtain rfl := Option.some.inj hNext
      refine h.reset rfl (fun username hCheck => hNone _ hCheck rfl) ?_
      exact fun d hd hdc => (List.mem_erase_of_ne hdc).mpr hd

/-- A harmful step gives a second client a session. -/
theorem harmful_breaks (s : Server) (event : Event) (next : Server) (_ : Sound s)
    (hBad : Harmful config s event) (hStep : step config s event = some next) : ¬Unique next := by
  intro hUnique
  cases event with
  | request c request =>
      obtain ⟨hReaches, hValid, hOnline, hBusy, hFree, d, hd, hCheck⟩ := hBad
      obtain ⟨_, hNext⟩ := Option.ite_none_right_eq_some.mp hStep
      obtain rfl := Option.some.inj hNext
      have hNew := session_append (loginRequest_starts config s c hReaches hOnline hBusy hFree)
      have hStarted := (hNew _ c).mpr (Or.inr ⟨rfl, rfl⟩)
      have hRunning := (hNew _ d).mpr (Or.inl (Or.inr hCheck))
      exact hd (hUnique _ d c hValid hRunning hStarted)
  | complete c username outcome =>
      obtain ⟨_, hNext⟩ := Option.ite_none_right_eq_some.mp hStep
      obtain rfl := Option.some.inj hNext
      match outcome, hBad with
      | .success (some row), hBad =>
          obtain ⟨hName, hValid, d, hd, hSession⟩ := hBad
          obtain ⟨hChecks, _, hPlayer⟩ :=
            complete_success config s c username row
          have hLoaded : Session (s.complete config c username (.success (some row))) row c :=
            Or.inl (by rw [hPlayer, if_pos rfl])
          have hKept : Session (s.complete config c username (.success (some row))) row d := by
            rcases hSession with hHolds | hCheck
            · exact Or.inl (by rw [hPlayer, if_neg hd, hHolds])
            · refine Or.inr ?_
              rw [hChecks, List.mem_erase_of_ne (fun hEq => hd (Prod.mk.inj hEq).1)]
              exact hCheck
          exact hd (hUnique row d c hValid hKept hLoaded)
  | connect c => exact hBad
  | close c => exact hBad
  | bury c => exact hBad

theorem sound_start : Sound .start := by
  have hNone (name : Username) (c : ClientId) : ¬Session .start name c := by
    simp [Session, Server.start]
  exact ⟨fun name c _ _ hc => absurd hc (hNone name c), fun name c hc => absurd hc (hNone name c)⟩

/-- In the runs of a server, no two clients ever share a session exactly when no
harmful step is taken. -/
theorem unique_iff_avoids (config : Config) (events : List Event) :
    General.Always (step config) Unique .start events ↔
      General.Avoids (step config) (Harmful config) .start events :=
  General.always_iff_avoids (fun _ h => h.unique) step_sound harmful_breaks sound_start events

theorem failureCallback_flag (config : Config) (s : Server) (c : ClientId)
    (username : Username) :
    (failureCallback config s c username).pendingLogins =
      Function.update s.pendingLogins username false := by
  unfold failureCallback
  split
  · dsimp only
    split <;> rfl
  · rfl

theorem checkCredential_flag (config : Config) (s : Server) (c : ClientId)
    {username name : Username} (h : name ≠ username) :
    (checkCredential config s c username).pendingLogins name = s.pendingLogins name := by
  unfold checkCredential
  split
  · split
    · rfl
    · change (failureCallback config _ c username).pendingLogins name = _
      rw [failureCallback_flag, Function.update_of_ne h]
      rfl
  · dsimp only
    split <;> rfl

/-- The flag of a username is cleared only by the end of a check of it, or by a
request for it that is turned away at `PlayerOnline`. -/
theorem flag_cleared {next : Server} {event : Event} {username : Username}
    (hValid : validName username = true) (hFlag : s.pendingLogins username = true)
    (hStep : step config s event = some next) (hCleared : next.pendingLogins username = false) :
    (∃ c outcome, event = .complete c username outcome) ∨
      ∃ c request, event = .request c request ∧ lowercase request.username = username ∧
        s.playerOnline username = true := by
  have hOnline : s.playerOnline username = true := by simp [playerOnline, hValid, hFlag]
  have hKept (h : next.pendingLogins username = s.pendingLogins username) : False := by
    rw [h, hFlag] at hCleared
    cases hCleared
  cases event with
  | connect c =>
      obtain ⟨_, hNext⟩ := Option.ite_none_left_eq_some.mp hStep
      obtain rfl := Option.some.inj hNext
      exact (hKept rfl).elim
  | request c request =>
      obtain ⟨_, hNext⟩ := Option.ite_none_right_eq_some.mp hStep
      obtain rfl := Option.some.inj hNext
      by_cases hName : lowercase request.username = username
      · exact Or.inr ⟨c, request, rfl, hName, hOnline⟩
      · refine (hKept ?_).elim
        obtain ⟨-, hSame | hClosed⟩ | ⟨-, -, hFailed⟩ | ⟨-, -, hCheck⟩ :=
          loginRequest_cases config s c request
        · rw [hSame]
        · rw [hClosed]
          rfl
        · rw [hFailed, failureCallback_flag, Function.update_of_ne (Ne.symm hName)]
        · rw [hCheck, checkCredential_flag config _ c (Ne.symm hName)]
          exact Function.update_of_ne (Ne.symm hName) _ _
  | complete c name outcome =>
      obtain ⟨_, hNext⟩ := Option.ite_none_right_eq_some.mp hStep
      obtain rfl := Option.some.inj hNext
      by_cases hName : name = username
      · exact Or.inl ⟨c, outcome, by rw [hName]⟩
      · refine (hKept ?_).elim
        match outcome with
        | .thrown => rfl
        | .success none => rfl
        | .failure =>
            change (failureCallback config _ c name).pendingLogins username = _
            rw [failureCallback_flag, Function.update_of_ne (Ne.symm hName)]
        | .success (some row) =>
            simp only [complete]
            split
            · exact Function.update_of_ne (Ne.symm hName) _ _
            · exact Function.update_of_ne (Ne.symm hName) _ _
  | close c =>
      obtain ⟨_, hNext⟩ := Option.ite_none_right_eq_some.mp hStep
      obtain rfl := Option.some.inj hNext
      exact (hKept rfl).elim
  | bury c =>
      obtain ⟨_, hNext⟩ := Option.ite_none_right_eq_some.mp hStep
      obtain rfl := Option.some.inj hNext
      exact (hKept rfl).elim

def testConfig : Config := ⟨16, 12, 4, 6, id, 200, 8, 3⟩

/-- Three requests for the account `abcd`. The second one is refused and clears
the flag of the first one. -/
def threeRequests : List Event :=
  let request : LoginRequest := ⟨[97, 98, 99, 100], [49, 50, 51, 52, 53, 54], false, 0⟩
  [.connect 1, .connect 2, .connect 3, .request 1 request, .request 2 request, .request 3 request]

theorem not_unique_threeRequests :
    ¬General.Always (step testConfig) Unique .start threeRequests := by
  intro h
  obtain ⟨s, hRun, hChecks⟩ : ∃ s, General.run (step testConfig) .start threeRequests = some s ∧
      s.checks = [(1, [97, 98, 99, 100]), (3, [97, 98, 99, 100])] := ⟨_, rfl, rfl⟩
  have hUnique := h threeRequests s (List.prefix_refl _) hRun
  have hSame := hUnique [97, 98, 99, 100] 1 3 (by decide) (Or.inr (by simp [hChecks]))
    (Or.inr (by simp [hChecks]))
  exact absurd hSame (by decide)

end Etheos.Login
