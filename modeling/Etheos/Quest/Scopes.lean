import Etheos.Quest.RoundTrip

/-! Calls with scopes in front of them. The name of the function is taken from the tokens before
the scopes are. -/
namespace Etheos.EOPlus.Parser

open General Tree
open Lexer (fileEnd)
open QuestStates (Text)

def scopeName : ScopeType → String
  | .character => "character"
  | .npc => "npc"
  | .map => "map"
  | .world => "world"

/-- The scopes are written with a dot behind each. -/
def printScopes (scopes : List ScopeType) : List Lexeme :=
  scopes.flatMap fun scope => [.word (scopeName scope), .sign '.']

def scopedCall (expr : Tree.Expression) : List Lexeme := printScopes expr.scopes ++ expr.call

/-- From the tokens ahead of it the parser does not get to a result. -/
def Fails {α : Type} (before : Tokens) (x : Parse α) : Prop :=
  Triple (Ahead before) x (fun _ _ => False) fun _ _ => True

/-- The parser reads the expression, and the tokens behind it are what it has ahead. -/
def Understands (expr : Tree.Expression) (after : Tokens) (s : TokenServer) : Prop :=
  ∃ fuel s', parseExpression fuel s = .ok expr s' ∧ Ahead after s'

section Failures

variable {α β : Type} {before middle after : Tokens} {fuel : Nat}

theorem Fails.behind {x : Parse α} {f : α → Parse β} {R : α → Prop} (hx : Reads before x R middle)
    (hf : ∀ a, R a → Fails middle (f a)) : Fails before (x >>= f) := by
  refine Triple.bind (hx.conseq (fun _ => id) (fun _ _ => id) fun _ _ h => h.elim) ?_
  intro a s hs
  exact hf a hs.1 s hs.2

theorem fails_failGot (what : String) : Fails before (failGot what : Parse α) :=
  fun _ _ => trivial

theorem Fails.not_ok {x : Parse α} (h : Fails before x) {s s' : TokenServer} {a : α} (hs : Ahead before s) :
    x s ≠ .ok a s' := by
  intro hResult
  have hNone := h s hs
  rw [hResult] at hNone
  exact hNone

theorem fails_scopes {scopes : List ScopeType} {data : Data}
    (hBefore : before = (.symbol, data) :: after) {f : List ScopeType → Parse β}
    (hf : Fails before (f scopes)) : Fails before (parseScopes fuel scopes >>= f) := by
  subst hBefore
  cases fuel with
  | zero => exact fun _ _ => trivial
  | succ fuel =>
      have hNone : Reads ((.symbol, data) :: after) (parseScopes (fuel + 1) scopes) (· = scopes)
          ((.symbol, data) :: after) :=
        Reads.next (reads_getToken_none nofun (by decide) (by decide)) (.ret rfl)
      exact Fails.behind hNone fun _ h => h ▸ hf

/-- The first scope is taken for the name of the function, and a dot cannot follow that. -/
theorem fails_scoped (scope : ScopeType) :
    Fails ((.identifier, .string (scopeName scope)) :: (.symbol, .string ".") :: after) (parseExpression fuel) := by
  have hName : (Data.string (scopeName scope)).toString ≠ "goto" := by
    cases scope
    all_goals decide
  refine Fails.behind (reads_getToken nofun (by decide) (by decide)) ?_
  rintro _ ⟨k, rfl⟩
  dsimp only
  rw [if_neg hName]
  refine fails_scopes rfl ?_
  refine Fails.behind (reads_getTokenIf_none nofun (by decide) (.inl (by decide))) ?_
  rintro _ rfl
  exact fails_failGot _

/-- Behind `goto` stands no list of arguments. -/
theorem fails_goto :
    Fails ((.identifier, .string "goto") :: (.operator, .int (uop1 '(')) :: after) (parseExpression fuel) := by
  refine Fails.behind (reads_getToken nofun (by decide) (by decide)) ?_
  rintro _ ⟨k, rfl⟩
  have hGoto : (Data.string "goto").toString = "goto" := rfl
  dsimp only
  rw [if_pos hGoto]
  refine Fails.behind (reads_getToken_none nofun (by decide) (by decide)) ?_
  rintro _ rfl
  exact fails_failGot _

end Failures

section Calls

variable {expr : Tree.Expression} {after : Tokens} {s : TokenServer}

/-- A call is understood exactly if it has no scopes, and its function is not `goto`. -/
theorem understands_iff (hArgs : ∀ arg ∈ expr.args, PlainData arg) (hName : IsName expr.function)
    (hs : Ahead (tokensOf (scopedCall expr) ++ after) s) :
    Understands expr after s ↔ expr.scopes = [] ∧ expr.function ≠ "goto" := by
  obtain ⟨scopes, function, args⟩ := expr
  constructor
  · rintro ⟨fuel, s', hParsed, -⟩
    cases scopes with
    | cons scope scopes => exact absurd hParsed ((fails_scoped scope).not_ok hs)
    | nil =>
        refine ⟨rfl, ?_⟩
        rintro rfl
        exact fails_goto.not_ok hs hParsed
  · rintro ⟨hScopes, hGoto⟩
    obtain rfl : scopes = [] := hScopes
    have hReads : Reads (tokensOf (⟨[], function, args⟩ : Tree.Expression).call ++ after)
        (parseExpression (args.length + 1)) (· = ⟨[], function, args⟩) after :=
      reads_call ⟨rfl, ⟨hName, hGoto⟩, hArgs⟩ (Nat.lt_succ_self _)
    have hRead := hReads s hs
    cases hParsed : parseExpression (args.length + 1) s with
    | error e s' =>
        rw [hParsed] at hRead
        exact hRead.elim
    | ok read s' =>
        rw [hParsed] at hRead
        obtain ⟨rfl, hAhead⟩ := hRead
        exact ⟨args.length + 1, s', hParsed, hAhead⟩

theorem scopeName_isName (scope : ScopeType) : IsName (scopeName scope) := by
  cases scope
  all_goals decide

theorem readable_scopes (scopes : List ScopeType) : Readable (printScopes scopes) := by
  exact Readable.flatMap fun scope _ => .cons (scopeName_isName scope) (readable_sign (by decide))

theorem readable_scopedCall (hArgs : ∀ arg ∈ expr.args, PlainData arg) (hName : IsName expr.function) :
    Readable (scopedCall expr) :=
  .append (readable_scopes expr.scopes) (.cons hName (.append (readable_sign (by decide)) (readable_args hArgs)))

end Calls

/-- The text of a call with scopes, with anything behind it that the lexer reads. The lexer finds its
tokens, but only a call without scopes is parsed. -/
theorem scoped_call_iff (expr : Tree.Expression) (more : List Lexeme) (text : Text)
    (hName : IsName expr.function) (hArgs : ∀ arg ∈ expr.args, PlainData arg) (hMore : Readable more)
    (hText : Spells (scopedCall expr ++ more) text) :
    Lexer.LexesTo (Lexer.start text) (tokensOf (scopedCall expr ++ more) ++ [fileEnd]) ∧
      ∀ s, Ahead (tokensOf (scopedCall expr ++ more) ++ [fileEnd]) s →
        (Understands expr (tokensOf more ++ [fileEnd]) s ↔ expr.scopes = [] ∧ expr.function ≠ "goto") := by
  have hReadable := (readable_scopedCall hArgs hName).append hMore
  have hLexed := Lexer.lexesTo_spelled hText hReadable (Lexer.start text) rfl (Lexer.queued_start text)
  refine ⟨hLexed, fun s hs => understands_iff hArgs hName ?_⟩
  rw [← List.append_assoc, ← tokensOf_append]
  exact hs

/-- The rule `world.map.entercoord(1)`. -/
def worldMapCall : Tree.Expression := ⟨[.world, .map], "entercoord", [.int 1]⟩

theorem scoped_call_iff_worldMap :
    Lexer.LexesTo (Lexer.start (spaced (scopedCall worldMapCall)))
      (tokensOf (scopedCall worldMapCall ++ []) ++ [fileEnd]) :=
  (scoped_call_iff worldMapCall [] (spaced (scopedCall worldMapCall)) (by decide) (by simp [worldMapCall, PlainData])
    nofun (by rw [List.append_nil]; exact spells_spaced _)).1

/-- It is refused in the state that the parser begins with. -/
theorem worldMap_refused :
    spaced (scopedCall worldMapCall) = " world . map . entercoord ( 1 )".toList ∧
      Lexer.LexesTo (Lexer.start (spaced (scopedCall worldMapCall)))
        (tokensOf (scopedCall worldMapCall) ++ [fileEnd]) ∧
      ¬Understands worldMapCall [fileEnd]
        (.start ((tokensOf (scopedCall worldMapCall) ++ [fileEnd]).map fun t => .of t.1 t.2)) := by
  have hReadable : Readable (scopedCall worldMapCall) :=
    readable_scopedCall (by simp [worldMapCall, PlainData]) (by decide)
  refine ⟨by decide, Lexer.lexesTo_spelled (spells_spaced _) hReadable _ rfl (Lexer.queued_start _), ?_⟩
  rintro ⟨fuel, s', hParsed, -⟩
  have hFails : Fails (tokensOf (scopedCall worldMapCall) ++ [fileEnd]) (parseExpression fuel) := fails_scoped .world
  have hAhead : Ahead (tokensOf (scopedCall worldMapCall) ++ [fileEnd])
      (.start ((tokensOf (scopedCall worldMapCall) ++ [fileEnd]).map fun t => .of t.1 t.2)) := rfl
  exact hFails.not_ok hAhead hParsed

end Etheos.EOPlus.Parser
