import Etheos.Quest.Parser

/-! Runs of `GetToken` and `PutBack` on a token server. -/
namespace Etheos.EOPlus

/-- A newline that `GetToken` goes past. -/
def Token.skipped (allow : Nat) (t : Token) : Bool :=
  t.type = .newLine && TokenType.newLine.bits &&& allow ≠ TokenType.newLine.bits

namespace TokenServer

/-- Whether `GetToken` gives an invalid token. -/
def fails (allow : Nat) (s : TokenServer) : Bool :=
  (s.tokens.find? fun t => !t.skipped allow).all fun t =>
    t.type = .invalid || t.type.bits &&& allow ≠ t.type.bits

/-- Whether `GetToken` has no newline to go past and no invalid token to take. -/
def clean (allow : Nat) (s : TokenServer) : Bool :=
  s.tokens.head?.all fun t => !t.skipped allow && t.type ≠ .invalid

/-- What `GetToken` reads of a server. The newlines that a token has counted are counted again. -/
def view (s : TokenServer) : Int × List (TokenType × Data) :=
  (s.line, s.tokens.map fun t => (t.type, t.data))

section Tokens

variable {allow : Nat} {s s' : TokenServer} {t : Token}

theorem nextToken_congr {tokens tokens' : List Token} (allow : Nat) (newlines : Int) (hLine : s.line = s'.line)
    (hTokens : tokens.map (fun t => (t.type, t.data)) = tokens'.map fun t => (t.type, t.data)) :
    (s.nextToken allow newlines tokens).1 = (s'.nextToken allow newlines tokens').1 ∧
      (s.nextToken allow newlines tokens).2.view = (s'.nextToken allow newlines tokens').2.view := by
  induction tokens generalizing tokens' s s' newlines with
  | nil =>
      cases tokens' with
      | nil => simp [nextToken, view, hLine]
      | cons t' tokens' => simp at hTokens
  | cons t tokens ih =>
      cases tokens' with
      | nil => simp at hTokens
      | cons t' tokens' =>
          simp only [List.map_cons, List.cons.injEq, Prod.mk.injEq] at hTokens
          obtain ⟨⟨hType, hData⟩, hRest⟩ := hTokens
          simp only [nextToken, hType]
          split
          · split
            · simp [view, hLine, hData, hRest]
            · exact ih _ (by simp [hLine]) hRest
          · simp [view, hLine, hData, hRest]

theorem putBack_congr (h : s.view = s'.view) : (s.putBack t).view = (s'.putBack t).view := by
  simp only [view, Prod.mk.injEq] at h
  simp [view, putBack, h]

theorem getToken_congr (allow : Nat) (h : s.view = s'.view) :
    (s.getToken allow).1 = (s'.getToken allow).1 ∧
      (s.getToken allow).2.view = (s'.getToken allow).2.view := by
  simp only [view, Prod.mk.injEq] at h
  obtain ⟨hToken, hServer⟩ := nextToken_congr allow 0 h.1 h.2
  simp only [getToken, hToken]
  split
  · exact ⟨rfl, putBack_congr hServer⟩
  · exact ⟨rfl, hServer⟩

theorem nextToken_clean {tokens : List Token} (hTokens : s.tokens = t :: tokens) (h : s.clean allow) :
    s.nextToken allow 0 s.tokens = ({ t with newlines := 0 },
      { s with tokens := tokens, line := s.line + if t.type = .newLine then 1 else 0 }) := by
  simp only [clean, hTokens, Token.skipped] at h
  rw [hTokens, nextToken]
  by_cases hType : t.type = .newLine
  · simp_all
  · simp [hType]

theorem putBack_clean {tokens : List Token} (hTokens : s.tokens = t :: tokens) (h : s.clean allow) :
    ((s.nextToken allow 0 s.tokens).2.putBack (s.nextToken allow 0 s.tokens).1).view = s.view := by
  rw [nextToken_clean hTokens h]
  simp [putBack, view, hTokens]

theorem nextToken_type (allow : Nat) (s : TokenServer) (newlines : Int) (tokens : List Token) :
    (s.nextToken allow newlines tokens).1.type =
      ((tokens.find? fun t => !t.skipped allow).map Token.type).getD .invalid := by
  induction tokens generalizing s newlines with
  | nil => rfl
  | cons t tokens ih =>
      simp only [nextToken, List.find?_cons, Token.skipped]
      by_cases hType : t.type = .newLine
      · by_cases hAllow : TokenType.newLine.bits &&& allow = TokenType.newLine.bits
        · simp [hType, hAllow]
        · simp [hType, hAllow, ih, Token.skipped]
      · simp [hType]

/-- A token that is not allowed is put back, and otherwise only an invalid token is none. -/
theorem getToken_fails (allow : Nat) (s : TokenServer) :
    (s.getToken allow).1.type = .invalid ↔ s.fails allow := by
  have hType := nextToken_type allow s 0 s.tokens
  simp only [getToken, fails]
  cases hFound : s.tokens.find? fun t => !t.skipped allow with
  | none =>
      simp only [hFound, Option.map_none, Option.getD_none] at hType
      simp [hType, TokenType.bits]
  | some t =>
      simp only [hFound, Option.map_some, Option.getD_some] at hType
      rw [hType]
      split
      · simp_all [Token.plain, Token.of]
      · simp_all

theorem clean_type {tokens : List Token} (hTokens : s.tokens = t :: tokens) (h : s.clean allow) :
    (s.nextToken allow 0 s.tokens).1.type = t.type ∧ t.type ≠ .invalid := by
  rw [nextToken_clean hTokens h]
  simp only [clean, hTokens] at h
  simp_all

/-- `GetToken`, and `PutBack` where that gives a token. -/
def retried (allow : Nat) (s : TokenServer) : TokenServer :=
  if s.fails allow then (s.getToken allow).2 else (s.getToken allow).2.putBack (s.getToken allow).1

/-- It does not matter who puts back the token that is found. -/
theorem retried_eq : s.retried allow = if (s.nextToken allow 0 s.tokens).1.type = .invalid
    then (s.nextToken allow 0 s.tokens).2
    else (s.nextToken allow 0 s.tokens).2.putBack (s.nextToken allow 0 s.tokens).1 := by
  have hFails := getToken_fails allow s
  simp only [retried, getToken] at hFails ⊢
  by_cases hType : (s.nextToken allow 0 s.tokens).1.type = .invalid
  · simp_all [TokenType.bits]
  · split at hFails
    · simp_all [Token.plain, Token.of]
    · simp_all

theorem view_retried (h : s.clean allow) : (s.retried allow).view = s.view := by
  rw [retried_eq]
  cases hTokens : s.tokens with
  | nil => simp [nextToken, view, hTokens]
  | cons t tokens =>
      obtain ⟨hType, hValid⟩ := clean_type hTokens h
      rw [← hTokens, if_neg (hType ▸ hValid), putBack_clean hTokens h]

/-- The mask that `GetToken` has where none is given. -/
def anyType : Nat := 0xFFFFFFFF

theorem bits_anyType (type : TokenType) : type.bits &&& anyType = type.bits := by
  cases type <;> decide

theorem getToken_anyType :
    (s.getToken anyType).1.type = (s.tokens.head?.map Token.type).getD .invalid := by
  have hType := nextToken_type anyType s 0 s.tokens
  have hSkipped (t : Token) : t.skipped anyType = false := by
    simp [Token.skipped, bits_anyType]
  simp only [getToken, bits_anyType, ne_eq, not_true_eq_false, if_false, hType]
  cases s.tokens with
  | nil => rfl
  | cons t tokens => simp [hSkipped]

theorem nextToken_end {newlines : Int} {tokens : List Token} (hValid : ∀ t ∈ tokens, t.type ≠ .invalid)
    (h : (s.nextToken allow newlines tokens).1.type = .invalid) :
    (s.nextToken allow newlines tokens).2.tokens = [] := by
  induction tokens generalizing s newlines with
  | nil => rfl
  | cons t tokens ih =>
      obtain ⟨hType, hRest⟩ := List.forall_mem_cons.mp hValid
      simp only [nextToken] at h ⊢
      split at h
      · split at h
        · exact absurd h hType
        · simp only [*, if_true, if_false]
          exact ih hRest h
      · exact absurd h hType

/-- The token that is found is the next one after it has been put back. -/
theorem retried_next (hValid : ∀ t ∈ s.tokens, t.type ≠ .invalid) :
    ((s.retried allow).getToken anyType).1.type = (s.nextToken allow 0 s.tokens).1.type := by
  rw [getToken_anyType, retried_eq]
  split
  · simp [nextToken_end hValid, *]
  · simp [putBack]

/-- A newline that has been gone past is not the next token any more. -/
theorem retried_disturbs (hValid : ∀ t ∈ s.tokens, t.type ≠ .invalid) (h : ¬s.clean allow) :
    ((s.retried allow).getToken anyType).1.type ≠ (s.getToken anyType).1.type := by
  rw [retried_next hValid, getToken_anyType, nextToken_type]
  cases hTokens : s.tokens with
  | nil => simp [clean, hTokens] at h
  | cons t tokens =>
      have hType := hValid t (by simp [hTokens])
      have hSkipped : t.skipped allow := by simpa [clean, hTokens, hType] using h
      have hNewLine : t.type = .newLine := by
        simp only [Token.skipped, Bool.and_eq_true, decide_eq_true_eq] at hSkipped
        exact hSkipped.1
      simp only [List.head?_cons, Option.map_some, Option.getD_some, hNewLine]
      cases hFound : (t :: tokens).find? fun t => !t.skipped allow with
      | none => simp
      | some t' =>
          have hOther := List.find?_some hFound
          simp only [Token.skipped, Bool.and_eq_true, decide_eq_true_eq] at hSkipped hOther
          simp_all

/-- A call that is undone goes unnoticed exactly where it finds the next token at once. -/
theorem clean_iff (hValid : ∀ t ∈ s.tokens, t.type ≠ .invalid) :
    s.clean allow ↔ ∀ mask, ((s.retried allow).getToken mask).1 = (s.getToken mask).1 ∧
      ((s.retried allow).getToken mask).2.line = (s.getToken mask).2.line := by
  constructor
  · intro h mask
    obtain ⟨hToken, hServer⟩ := getToken_congr mask (view_retried h)
    exact ⟨hToken, congrArg Prod.fst hServer⟩
  · intro h
    by_contra hClean
    exact retried_disturbs hValid hClean (congrArg Token.type (h anyType).1)

end Tokens

end TokenServer

/-- A token that has been given, the mask it was asked for with, and the line it is on. -/
structure Got where
  allow : Nat
  token : Token
  line : Int
  deriving Repr, DecidableEq

/-- `last` is the token that can be put back, with the server it was taken from, and
`kept` are the ones before it that have not been put back. -/
structure Session where
  server : TokenServer
  kept : List Got
  last : Option (TokenServer × Got)

namespace Session

inductive Call
  | getToken (allow : Nat)
  | putBack
  deriving Repr, DecidableEq

def start (tokens : List Token) : Session := ⟨.start tokens, [], none⟩

/-- The tokens that have been given and not been put back. -/
def got (s : Session) : List Got := s.kept ++ (s.last.map Prod.snd).toList

def step (s : Session) : Call → Session
  | .getToken allow =>
      let (t, server) := s.server.getToken allow
      if t.type = .invalid then { s with server := server }
      else ⟨server, s.got, some (s.server, ⟨allow, t, server.line⟩)⟩
  | .putBack =>
      match s.last with
      | none => s
      | some (_, got) => ⟨s.server.putBack got.token, s.kept, none⟩

def run (s : Session) (calls : List Call) : Session := calls.foldl step s

/-- No newline is skipped by a `GetToken` that fails, or by the one whose token is put back. -/
def Steady (s : Session) : Call → Prop
  | .getToken allow => s.server.fails allow → s.server.clean allow
  | .putBack => ∀ taken ∈ s.last, taken.1.clean taken.2.allow

instance (s : Session) : (call : Call) → Decidable (s.Steady call)
  | .getToken allow => inferInstanceAs (Decidable (s.server.fails allow → s.server.clean allow))
  | .putBack => inferInstanceAs (Decidable (∀ taken ∈ s.last, taken.1.clean taken.2.allow))

def AllSteady (s : Session) : List Call → Prop
  | [] => True
  | call :: calls => s.Steady call ∧ (s.step call).AllSteady calls

instance (s : Session) (calls : List Call) : Decidable (s.AllSteady calls) :=
  match calls with
  | [] => inferInstanceAs (Decidable True)
  | call :: calls =>
      have := instDecidableAllSteady (s.step call) calls
      inferInstanceAs (Decidable (s.Steady call ∧ (s.step call).AllSteady calls))

/-- What a server gives to a list of masks. -/
def replay : TokenServer → List Nat → List Got × TokenServer
  | s, [] => ([], s)
  | s, allow :: rest =>
      let (t, s) := s.getToken allow
      let (gots, last) := replay s rest
      (⟨allow, t, s.line⟩ :: gots, last)

/-- The calls that gave the tokens that are kept give the same ones alone. -/
def Transparent (tokens : List Token) (s : Session) : Prop :=
  (replay (.start tokens) (s.got.map Got.allow)).1 = s.got

instance (tokens : List Token) (s : Session) : Decidable (Transparent tokens s) :=
  inferInstanceAs (Decidable (_ = _))

section Runs

variable {tokens : List Token} {gots : List Got} {server : TokenServer} {s : Session}

theorem replay_append (server : TokenServer) (masks masks' : List Nat) :
    replay server (masks ++ masks') = ((replay server masks).1 ++ (replay (replay server masks).2 masks').1,
      (replay (replay server masks).2 masks').2) := by
  induction masks generalizing server with
  | nil => rfl
  | cons allow masks ih => simp [replay, ih]

/-- A server is ahead of what it would be had only these tokens been taken. -/
def Follows (tokens : List Token) (gots : List Got) (server : TokenServer) : Prop :=
  (replay (.start tokens) (gots.map Got.allow)).1 = gots ∧
    (replay (.start tokens) (gots.map Got.allow)).2.view = server.view

theorem Follows.next (h : Follows tokens gots server) (allow : Nat) :
    Follows tokens (gots ++ [⟨allow, (server.getToken allow).1, (server.getToken allow).2.line⟩])
      (server.getToken allow).2 := by
  obtain ⟨hToken, hServer⟩ := TokenServer.getToken_congr allow h.2
  have hLine := congrArg Prod.fst hServer
  simp only [TokenServer.view] at hLine
  simp [Follows, replay_append, replay, h.1, hToken, hServer, hLine]

structure Inv (tokens : List Token) (s : Session) : Prop where
  follows : Follows tokens s.got s.server
  last {before : TokenServer} {got : Got} : s.last = some (before, got) →
    Follows tokens s.kept before ∧ ¬before.fails got.allow ∧
      got.token = (before.getToken got.allow).1 ∧ s.server.view = (before.getToken got.allow).2.view

theorem start_inv (tokens : List Token) : Inv tokens (start tokens) where
  follows := ⟨rfl, rfl⟩
  last h := by simp [start] at h

theorem step_inv {call : Call} (h : Inv tokens s) (hSteady : s.Steady call) : Inv tokens (s.step call) := by
  cases call with
  | getToken allow =>
      simp only [step, TokenServer.getToken_fails]
      by_cases hFails : s.server.fails allow
      · have hView := TokenServer.view_retried (hSteady hFails)
        rw [TokenServer.retried, if_pos hFails] at hView
        rw [if_pos hFails]
        exact ⟨⟨h.follows.1, h.follows.2.trans hView.symm⟩, fun hLast => by simpa [hView] using h.last hLast⟩
      · rw [if_neg hFails]
        refine ⟨h.follows.next allow, fun hLast => ?_⟩
        simp only [Option.some.injEq, Prod.mk.injEq] at hLast
        obtain ⟨rfl, rfl⟩ := hLast
        exact ⟨h.follows, hFails, rfl, rfl⟩
  | putBack =>
      cases hLast : s.last with
      | none => simpa [step, hLast] using h
      | some taken =>
          obtain ⟨hFollows, hFails, hToken, hServer⟩ := h.last hLast
          have hView := TokenServer.view_retried (hSteady taken hLast)
          rw [TokenServer.retried, if_neg hFails, ← TokenServer.putBack_congr hServer, ← hToken] at hView
          simp only [step, hLast]
          refine ⟨?_, fun hNone => by simp at hNone⟩
          simpa [got, Follows, hView] using hFollows

theorem run_inv {calls : List Call} (h : Inv tokens s) (hSteady : s.AllSteady calls) :
    Inv tokens (s.run calls) := by
  induction calls generalizing s with
  | nil => exact h
  | cons call calls ih => exact ih (step_inv h hSteady.1) hSteady.2

theorem AllSteady.before {calls calls' : List Call} (h : s.AllSteady (calls ++ calls')) : s.AllSteady calls := by
  induction calls generalizing s with
  | nil => trivial
  | cons call calls ih => exact ⟨h.1, ih h.2⟩

end Runs

/-- In a run whose calls all are steady, no token shows that others have been refused or put back. -/
theorem run_transparent (tokens : List Token) (calls : List Call) (h : (start tokens).AllSteady calls)
    (before : List Call) (hBefore : before <+: calls) : Transparent tokens ((start tokens).run before) := by
  obtain ⟨after, rfl⟩ := hBefore
  exact (run_inv (start_inv tokens) h.before).follows.1

section Examples

/-- The version of a quest, and what is behind it on the next line. -/
def versionLines : List Token :=
  [.of .integer (.int 1), .plain .newLine, .of .identifier (.string "questname"), .of .string (.string "A"),
    .plain .newLine]

/-- The version is put back and asked for again. -/
def versionCalls : List Call :=
  [.getToken TokenType.identifier.bits, .getToken TokenType.integer.bits, .putBack,
    .getToken TokenType.integer.bits, .getToken TokenType.newLine.bits]

theorem run_transparent_versionLines : Transparent versionLines ((start versionLines).run versionCalls) :=
  run_transparent versionLines versionCalls (by decide) versionCalls (List.prefix_refl _)

/-- The symbol that may be behind the number is not there, and the name is on the line before. -/
theorem versionLines_counterexample :
    ¬Transparent versionLines ((start versionLines).run
      [.getToken TokenType.integer.bits, .getToken TokenType.symbol.bits,
        .getToken TokenType.identifier.bits]) := by
  decide

end Examples

end Session

end Etheos.EOPlus
