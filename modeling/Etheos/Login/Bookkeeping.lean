import Etheos.Login.Sessions

/-! The flags of the usernames and the count of the checks. Both are raised before a
check starts, and each is lowered in other callbacks. -/
namespace Etheos.Login

open Server

/-- What the login manager and the world keep about the checks, and the checks. -/
structure Books where
  pendingLogins : Username → Bool
  processCount : Nat
  checks : List (ClientId × Username)

def Server.books (s : Server) : Books := ⟨s.pendingLogins, s.processCount, s.checks⟩

/-- Only a username with a check in flight has its flag set, and the count is the number
of checks in flight. -/
structure Books.Released (books : Books) : Prop where
  flags : ∀ username, books.pendingLogins username = true → ∃ c, (c, username) ∈ books.checks
  count : books.processCount = books.checks.length

def Released (s : Server) : Prop := s.books.Released

/-- `Execute` throws, and the flag of the username or the count stays up. Or a check ends
by an exception, and the flag stays up. -/
def Leaks (config : Config) (s : Server) : Event → Prop
  | .request c request =>
      request.Reaches config ∧ s.playerOnline (lowercase request.username) = false ∧
        (s.client c).asyncOpPending = true ∧
        (s.loginBusy config = false ∨ ∀ d, (d, lowercase request.username) ∉ s.checks)
  | .complete c username outcome =>
      (outcome = .thrown ∨ outcome = .success none) ∧ s.pendingLogins username = true ∧
        ∀ d, (d, username) ∉ s.checks.erase (c, username)
  | _ => False

section Books

variable (config : Config) (s : Server) (c : ClientId) (username : Username)

theorem failureCallback_books : (failureCallback config s c username).books =
    { s.books with pendingLogins := Function.update s.pendingLogins username false } := by
  unfold failureCallback
  split
  · dsimp only
    split <;> rfl
  · rfl

theorem checkCredential_books : (checkCredential config s c username).books =
    if s.loginBusy config then
      if (s.client c).asyncOpPending then s.books
      else { s.books with pendingLogins := Function.update s.pendingLogins username false }
    else if (s.client c).asyncOpPending then { s.books with processCount := s.processCount + 1 }
    else { s.books with
      processCount := s.processCount + 1
      checks := s.checks ++ [(c, username)] } := by
  unfold checkCredential
  split
  · split
    · rfl
    · exact failureCallback_books config (s.asyncOpPending c true) c username
  · dsimp only
    split <;> rfl

/-- The books behind the end of a check. -/
theorem complete_books (outcome : Outcome) : (s.complete config c username outcome).books =
    ⟨if outcome = .thrown ∨ outcome = .success none then s.pendingLogins
      else Function.update s.pendingLogins username false,
      s.processCount - 1, s.checks.erase (c, username)⟩ := by
  match outcome with
  | .thrown => rfl
  | .success none => rfl
  | .failure =>
      have hFailed := failureCallback_books config { s with checks := s.checks.erase (c, username) } c
        username
      rw [Server.books, Books.mk.injEq] at hFailed
      obtain ⟨hFlags, hCount, hChecks⟩ := hFailed
      simp only [complete, Server.books, asyncOpPending, setClient, hFlags, hCount, hChecks]
      simp
  | .success (some row) =>
      simp only [complete]
      split <;> simp [Server.books, asyncOpPending, setClient, setPendingLogin]

end Books

section Released

variable {books : Books}

/-- A flag may be cleared at any time. -/
theorem Books.Released.clear (h : books.Released) (username : Username) :
    { books with pendingLogins := Function.update books.pendingLogins username false }.Released := by
  refine ⟨fun name hName => ?_, h.count⟩
  by_cases hSame : name = username
  · subst hSame
    simp at hName
  · dsimp only at hName
    rw [Function.update_of_ne hSame] at hName
    exact h.flags name hName

/-- A flag may be set while a check of the username is in flight. -/
theorem Books.Released.set (h : books.Released) {username : Username} {c : ClientId}
    (hCheck : (c, username) ∈ books.checks) :
    { books with pendingLogins := Function.update books.pendingLogins username true }.Released := by
  refine ⟨fun name hName => ?_, h.count⟩
  by_cases hSame : name = username
  · exact ⟨c, hSame ▸ hCheck⟩
  · dsimp only at hName
    rw [Function.update_of_ne hSame] at hName
    exact h.flags name hName

/-- A check that starts is counted. -/
theorem Books.Released.begin (h : books.Released) (c : ClientId) (username : Username) :
    { books with
      processCount := books.processCount + 1
      checks := books.checks ++ [(c, username)] }.Released := by
  refine ⟨fun name hName => ?_, ?_⟩
  · obtain ⟨d, hCheck⟩ := h.flags name hName
    exact ⟨d, List.mem_append_left _ hCheck⟩
  · dsimp only
    rw [h.count, List.length_append]
    rfl

/-- A check may end once the flag of its username is cleared, or belongs to another check. -/
theorem Books.Released.finish (h : books.Released) {c : ClientId} {username : Username}
    (hCheck : (c, username) ∈ books.checks)
    (hOther : books.pendingLogins username = true →
      ∃ d, (d, username) ∈ books.checks.erase (c, username)) :
    { books with
      processCount := books.processCount - 1
      checks := books.checks.erase (c, username) }.Released := by
  refine ⟨fun name hName => ?_, ?_⟩
  · by_cases hSame : name = username
    · subst hSame
      exact hOther hName
    · obtain ⟨d, hOld⟩ := h.flags name hName
      exact ⟨d, (List.mem_erase_of_ne fun hEq => hSame (Prod.mk.inj hEq).2).mpr hOld⟩
  · dsimp only
    rw [h.count, List.length_erase_of_mem hCheck]

end Released

variable {config : Config}

/-- The books behind a request that gets past `PlayerOnline`. -/
theorem checkCredential_flagged (config : Config) (s : Server) (c : ClientId) (username : Username) :
    (checkCredential config (s.setPendingLogin username true) c username).books =
      let flagged := { s.books with pendingLogins := Function.update s.pendingLogins username true }
      if s.loginBusy config then
        if (s.client c).asyncOpPending then flagged
        else { s.books with pendingLogins := Function.update s.pendingLogins username false }
      else if (s.client c).asyncOpPending then { flagged with processCount := s.processCount + 1 }
      else { flagged with
        processCount := s.processCount + 1
        checks := s.checks ++ [(c, username)] } := by
  rw [checkCredential_books]
  simp only [setPendingLogin, Function.update_idem]
  rfl

theorem loginRequest_released {s : Server} (h : Released s) {c : ClientId} {request : LoginRequest}
    (hGood : ¬Leaks config s (.request c request)) : Released (s.loginRequest config c request) := by
  obtain ⟨-, hSame | hClosed⟩ | ⟨-, -, hFailed⟩ | ⟨hReaches, hOnline, hCheck⟩ :=
    loginRequest_cases config s c request
  · exact hSame.symm ▸ h
  · exact hClosed.symm ▸ h
  · rw [Released, hFailed, failureCallback_books]
    exact h.clear _
  · rw [Released, hCheck, checkCredential_flagged]
    dsimp only
    split
    case isTrue =>
      split
      case isTrue hPending =>
        obtain ⟨d, hFlight⟩ : ∃ d, (d, lowercase request.username) ∈ s.checks := by
          by_contra hNone
          exact hGood ⟨hReaches, hOnline, hPending, .inr (not_exists.mp hNone)⟩
        exact h.set hFlight
      case isFalse => exact h.clear _
    case isFalse hBusy =>
      split
      case isTrue hPending =>
        exact absurd ⟨hReaches, hOnline, hPending, .inl (by simpa using hBusy)⟩ hGood
      case isFalse =>
        have hBegun := Books.Released.begin h c (lowercase request.username)
        exact hBegun.set (List.mem_append_right _ (List.mem_singleton.mpr rfl))

theorem complete_released {s : Server} (h : Released s) {c : ClientId} {username : Username}
    {outcome : Outcome} (hCheck : (c, username) ∈ s.checks)
    (hGood : ¬Leaks config s (.complete c username outcome)) :
    Released (s.complete config c username outcome) := by
  rw [Released, complete_books]
  split
  case isTrue hThrown =>
    refine Books.Released.finish h hCheck fun hFlag => ?_
    by_contra hNone
    exact hGood ⟨hThrown, hFlag, not_exists.mp hNone⟩
  case isFalse =>
    refine Books.Released.finish (h.clear username) hCheck fun hFlag => ?_
    simp at hFlag

theorem step_released (s : Server) (event : Event) (next : Server) (h : Released s)
    (hGood : ¬Leaks config s event) (hStep : step config s event = some next) : Released next := by
  cases event with
  | connect c =>
      obtain ⟨-, hNext⟩ := Option.ite_none_left_eq_some.mp hStep
      exact Option.some.inj hNext ▸ h
  | request c request =>
      obtain ⟨-, hNext⟩ := Option.ite_none_right_eq_some.mp hStep
      exact Option.some.inj hNext ▸ loginRequest_released h hGood
  | complete c username outcome =>
      obtain ⟨hCheck, hNext⟩ := Option.ite_none_right_eq_some.mp hStep
      exact Option.some.inj hNext ▸ complete_released h hCheck hGood
  | close c =>
      obtain ⟨-, hNext⟩ := Option.ite_none_right_eq_some.mp hStep
      exact Option.some.inj hNext ▸ h
  | bury c =>
      obtain ⟨-, hNext⟩ := Option.ite_none_right_eq_some.mp hStep
      exact Option.some.inj hNext ▸ h

/-- The request of a client with a check in flight leaves the count or the flag up. -/
theorem loginRequest_leaks {s : Server} (h : Released s) {c : ClientId} {request : LoginRequest}
    (hBad : Leaks config s (.request c request)) : ¬Released (s.loginRequest config c request) := by
  obtain ⟨hReaches, hOnline, hPending, hLost⟩ := hBad
  obtain ⟨hNot, -⟩ | ⟨-, hHeld, -⟩ | ⟨-, -, hCheck⟩ := loginRequest_cases config s c request
  · exact absurd hReaches hNot
  · exact absurd (hHeld.symm.trans hOnline) (by decide)
  · rw [Released, hCheck, checkCredential_flagged]
    dsimp only
    rw [if_pos hPending, if_pos hPending]
    intro hReleased
    split at hReleased
    case isTrue hBusy =>
      have hNone := hLost.resolve_left (by simp [hBusy])
      obtain ⟨d, hFlight⟩ := hReleased.flags (lowercase request.username) (Function.update_self ..)
      exact hNone d hFlight
    case isFalse =>
      have hCount : s.processCount + 1 = s.checks.length := hReleased.count
      have hBefore : s.processCount = s.checks.length := h.count
      omega

theorem leaks_break (s : Server) (event : Event) (next : Server) (h : Released s)
    (hBad : Leaks config s event) (hStep : step config s event = some next) : ¬Released next := by
  cases event with
  | request c request =>
      obtain ⟨-, hNext⟩ := Option.ite_none_right_eq_some.mp hStep
      exact Option.some.inj hNext ▸ loginRequest_leaks h hBad
  | complete c username outcome =>
      obtain ⟨-, hNext⟩ := Option.ite_none_right_eq_some.mp hStep
      obtain ⟨hThrown, hFlag, hNone⟩ := hBad
      rw [← Option.some.inj hNext, Released, complete_books, if_pos hThrown]
      intro hReleased
      obtain ⟨d, hFlight⟩ := hReleased.flags username hFlag
      exact hNone d hFlight
  | connect c => exact hBad.elim
  | close c => exact hBad.elim
  | bury c => exact hBad.elim

theorem released_start : Released .start where
  flags := by
    intro username hFlag
    cases hFlag
  count := rfl

/-- Flags and count are released in exactly the runs in which no step leaks. -/
theorem released_iff_avoids (config : Config) (events : List Event) :
    General.Always (step config) Released .start events ↔
      General.Avoids (step config) (Leaks config) .start events :=
  General.always_iff_avoids (fun _ h => h) step_released leaks_break released_start events

/-- A check that the database ends by an exception, and a client that asks for another
account while its first check is running. -/
theorem not_released_exceptions :
    let abcd : Username := [97, 98, 99, 100]
    let request : LoginRequest := ⟨abcd, [49, 50, 51, 52, 53, 54], false, 0⟩
    let other : LoginRequest := ⟨[101, 102, 103, 104], [49, 50, 51, 52, 53, 54], false, 0⟩
    ¬General.Always (step testConfig) Released .start
      [.connect 1, .request 1 request, .complete 1 abcd .thrown] ∧
    ¬General.Always (step testConfig) Released .start
      [.connect 1, .request 1 request, .request 1 other, .complete 1 abcd .failure] := by
  constructor
  · intro h
    have hEnd := h _ _ (List.prefix_refl _) rfl
    obtain ⟨c, hCheck⟩ := hEnd.flags [97, 98, 99, 100] rfl
    cases hCheck
  · intro h
    have hEnd := h _ _ (List.prefix_refl _) rfl
    have hCount : 1 = 0 := hEnd.count
    cases hCount

end Etheos.Login
