import Etheos.Quest.Printing

/-! Quests that are printed and read again. The parser is looked at through the tokens
that are ahead of it. -/
namespace Etheos.EOPlus

open General
open Lexer (fileEnd)
open QuestStates (Text)

namespace Tree

def PlainData : Data → Prop
  | .int n => 0 ≤ n ∧ n < 2 ^ 31
  | .string _ => True
  | .bool _ => False

structure Expression.Plain (expr : Expression) : Prop where
  scopes : expr.scopes = []
  function : IsName expr.function ∧ expr.function ≠ "goto"
  args : ∀ arg ∈ expr.args, PlainData arg

/-- Only an action with a condition of its own has an expression for it. -/
structure Action.Plain (action : Action) : Prop where
  condExpr : if action.cond = .ifTrue ∨ action.cond = .elseIf then action.condExpr.Plain
    else action.condExpr = .empty
  expr : action.expr.Plain

structure Rule.Plain (rule : Rule) : Prop where
  expr : rule.expr.Plain
  action : rule.action.cond = .none ∧ rule.action.condExpr = .empty ∧ rule.action.expr.Plain

/-- The goal is one of the rules if there are any. -/
structure State.Plain (state : State) : Prop where
  name : IsName state.name
  rules : ∀ rule ∈ state.rules, rule.Plain
  actions : ∀ action ∈ state.actions, action.Plain
  goalRule : state.goalRule < state.rules.length ∨ state.rules = [] ∧ state.goalRule = 0

structure Quest.Plain (quest : Quest) : Prop where
  info : quest.info.isSome
  states : ∀ entry ∈ quest.states.entries, entry.2.name = entry.1 ∧ entry.2.Plain

end Tree

namespace Parser

abbrev Tokens := List (TokenType × Data)

/-- What the parser has before it, apart from the ends of lines. -/
def Ahead (tokens : Tokens) (s : TokenServer) : Prop := Lexer.stream s.tokens = tokens

section Reads

variable {α β : Type} {before middle after : Tokens}

/-- The parser goes on to `after` with a result like this. -/
def Reads (before : Tokens) (x : Parse α) (R : α → Prop) (after : Tokens) : Prop :=
  Triple (Ahead before) x (fun a s => R a ∧ Ahead after s) fun _ _ => False

theorem Reads.ret {a : α} {R : α → Prop} (h : R a) : Reads before (pure a) R before :=
  Triple.ret fun _ hs => ⟨h, hs⟩

theorem Reads.bind {x : Parse α} {f : α → Parse β} {R : α → Prop} {Q : β → Prop} (hx : Reads before x R middle)
    (hf : ∀ a, R a → Reads middle (f a) Q after) : Reads before (x >>= f) Q after :=
  Triple.bind hx fun a s hs => hf a hs.1 s hs.2

/-- A result that is known goes into what is next. -/
theorem Reads.next {x : Parse α} {f : α → Parse β} {a : α} {Q : β → Prop} (hx : Reads before x (· = a) middle)
    (hf : Reads middle (f a) Q after) : Reads before (x >>= f) Q after :=
  hx.bind fun _ h => h ▸ hf

end Reads

section Tokens

variable {type : TokenType} {data : Data} {after : Tokens} {types : List TokenType}

theorem bits_and (a b : TokenType) : a.bits &&& b.bits = if a = b then a.bits else 0 := by
  cases a
  all_goals
    cases b
    all_goals rfl

theorem and_allow (type : TokenType) (types : List TokenType) :
    type.bits &&& allow types = if type ∈ types then type.bits else 0 := by
  induction types with
  | nil => exact Nat.and_zero _
  | cons first types ih =>
      have hSplit : type.bits &&& allow (first :: types) = (type.bits &&& first.bits) ||| (type.bits &&& allow types) :=
        Nat.and_or_distrib_left ..
      rw [hSplit, ih, bits_and]
      by_cases hFirst : type = first
      · subst hFirst
        rw [if_pos rfl, if_pos List.mem_cons_self]
        split
        · exact Nat.or_self _
        · exact Nat.or_zero _
      · rw [if_neg hFirst, Nat.zero_or]
        simp only [List.mem_cons, hFirst, false_or]

theorem allowed_iff (hType : type ≠ .invalid) : type.bits &&& allow types = type.bits ↔ type ∈ types := by
  rw [and_allow]
  constructor
  · intro h
    by_contra hOther
    rw [if_neg hOther] at h
    cases type
    case invalid => exact hType rfl
    all_goals cases h
  · exact fun h => if_pos h

theorem stream_cons {t : Token} (tokens : List Token) (h : t.type ≠ .newLine) :
    Lexer.stream (t :: tokens) = (t.type, t.data) :: Lexer.stream tokens := by
  simp [Lexer.stream, h]

theorem stream_newLines (n : Nat) (tokens : List Token) :
    Lexer.stream (List.replicate n (.plain .newLine) ++ tokens) = Lexer.stream tokens := by
  induction n with
  | zero => rfl
  | succ n ih => exact ih

theorem ahead_putBack {t : Token} {s : TokenServer} (hType : t.type ≠ .newLine) (hs : Ahead after s) :
    Ahead ((t.type, t.data) :: after) (s.putBack t) := by
  have hTokens : Lexer.stream (s.putBack t).tokens = (t.type, t.data) :: Lexer.stream s.tokens := by
    rw [TokenServer.putBack, ← stream_newLines t.newlines.toNat s.tokens]
    exact stream_cons _ hType
  rw [Ahead, hTokens, hs]

/-- Lines that end are passed over. -/
theorem nextToken_ahead {bits : Nat} (hBits : TokenType.newLine.bits &&& bits ≠ TokenType.newLine.bits)
    (tokens : List Token) (s : TokenServer) (newlines : Int) (h : Lexer.stream tokens = (type, data) :: after) :
    ∃ k, (s.nextToken bits newlines tokens).1 = ⟨type, data, k⟩ ∧
      Ahead after (s.nextToken bits newlines tokens).2 := by
  induction tokens generalizing s newlines with
  | nil => cases h
  | cons t rest ih =>
      unfold TokenServer.nextToken
      by_cases hLine : t.type = .newLine
      · have hRest : Lexer.stream rest = (type, data) :: after := by
          rw [← h]
          simp [Lexer.stream, hLine]
        rw [if_pos hLine]
        dsimp only
        rw [if_neg hBits]
        exact ih _ _ hRest
      · rw [stream_cons _ hLine] at h
        obtain ⟨hToken, hRest⟩ := List.cons.inj h
        cases hToken
        rw [if_neg hLine]
        exact ⟨newlines, rfl, hRest⟩

theorem ahead_type {s : TokenServer} (hs : Ahead ((type, data) :: after) s) : type ≠ .newLine := by
  have hMem : (type, data) ∈ Lexer.stream s.tokens := hs ▸ List.mem_cons_self
  obtain ⟨t, ht, hSame⟩ := List.mem_map.mp hMem
  cases hSame
  exact of_decide_eq_true (List.mem_filter.mp ht).2

theorem reads_getToken (hInvalid : type ≠ .invalid) (hLine : .newLine ∉ types) (hMem : type ∈ types) :
    Reads ((type, data) :: after) (getToken types) (fun t => ∃ k, t = some ⟨type, data, k⟩) after := by
  intro s hs
  have hBits : TokenType.newLine.bits &&& allow types ≠ TokenType.newLine.bits := by
    rwa [Ne, allowed_iff (show TokenType.newLine ≠ .invalid from nofun)]
  obtain ⟨k, hToken, hRest⟩ := nextToken_ahead hBits s.tokens s 0 hs
  have hGot : s.getToken (allow types) = (⟨type, data, k⟩, (s.nextToken (allow types) 0 s.tokens).2) := by
    rw [TokenServer.getToken, ← hToken]
    dsimp only
    rw [hToken, if_neg (not_not.mpr ((allowed_iff hInvalid).mpr hMem))]
  have hRun : getToken types s = .ok (some ⟨type, data, k⟩) (s.nextToken (allow types) 0 s.tokens).2 := by
    change EStateM.Result.ok _ _ = _
    rw [hGot, if_neg hInvalid]
  rw [hRun]
  exact ⟨⟨k, rfl⟩, hRest⟩

theorem reads_getToken_none (hInvalid : type ≠ .invalid) (hLine : .newLine ∉ types) (hMem : type ∉ types) :
    Reads ((type, data) :: after) (getToken types) (· = none) ((type, data) :: after) := by
  intro s hs
  have hBits : TokenType.newLine.bits &&& allow types ≠ TokenType.newLine.bits := by
    rwa [Ne, allowed_iff (show TokenType.newLine ≠ .invalid from nofun)]
  obtain ⟨k, hToken, hRest⟩ := nextToken_ahead hBits s.tokens s 0 hs
  have hGot : s.getToken (allow types) =
      (.plain .invalid, (s.nextToken (allow types) 0 s.tokens).2.putBack ⟨type, data, k⟩) := by
    rw [TokenServer.getToken, ← hToken]
    dsimp only
    rw [hToken, if_pos (mt (allowed_iff hInvalid).mp hMem)]
  have hRun : getToken types s = .ok none ((s.nextToken (allow types) 0 s.tokens).2.putBack ⟨type, data, k⟩) := by
    change EStateM.Result.ok _ _ = _
    rw [hGot]
    rfl
  rw [hRun]
  exact ⟨rfl, ahead_putBack (ahead_type hs) hRest⟩

variable {f : Token → Bool}

theorem reads_getTokenIf (hInvalid : type ≠ .invalid) (hLine : .newLine ∉ types) (hMem : type ∈ types)
    (hf : ∀ k, f ⟨type, data, k⟩) :
    Reads ((type, data) :: after) (getTokenIf f types) (fun t => ∃ k, t = some ⟨type, data, k⟩) after := by
  refine (reads_getToken hInvalid hLine hMem).bind ?_
  rintro _ ⟨k, rfl⟩
  dsimp only
  rw [if_pos (hf k)]
  exact .ret ⟨k, rfl⟩

/-- A token that is not the one looked for stays. -/
theorem reads_getTokenIf_none (hInvalid : type ≠ .invalid) (hLine : .newLine ∉ types)
    (hOther : type ∉ types ∨ ∀ k, f ⟨type, data, k⟩ = false) :
    Reads ((type, data) :: after) (getTokenIf f types) (· = none) ((type, data) :: after) := by
  by_cases hMem : type ∈ types
  · have hf := hOther.resolve_left (not_not.mpr hMem)
    intro s hs
    have hNewLine := ahead_type hs
    refine (reads_getToken hInvalid hLine hMem).bind ?_ s hs
    rintro _ ⟨k, rfl⟩
    dsimp only
    rw [if_neg (by simp [hf k])]
    intro s' hs'
    exact ⟨rfl, ahead_putBack hNewLine hs'⟩
  · refine (reads_getToken_none hInvalid hLine hMem).bind ?_
    rintro _ rfl
    exact .ret rfl

end Tokens

section Words

open Tree

variable {after : Tokens} {style : Style} {fuel : Nat}

def tokensOf (words : List Lexeme) : Tokens := words.map Lexeme.token

theorem print_token {arg : Data} (hPlain : PlainData arg) :
    ∃ type, (type = .string ∨ type = .integer) ∧ arg.print.token = (type, arg) := by
  cases arg with
  | int n => exact ⟨.integer, .inr rfl, by rw [Data.print, Lexeme.token, Int.toNat_of_nonneg hPlain.1]⟩
  | string s => exact ⟨.string, .inl rfl, rfl⟩
  | bool b => exact hPlain.elim

/-- The list is read to its end, an argument with the delimiter behind it at a time. -/
theorem reads_args {args : List Data} (hArgs : args ≠ []) (hPlain : ∀ arg ∈ args, PlainData arg)
    (expression : Tree.Expression) (hFuel : args.length ≤ fuel) :
    Reads (tokensOf (printArgs args) ++ after) (parseArgs fuel expression)
      (· = { expression with args := expression.args ++ args }) after := by
  induction args generalizing fuel expression with
  | nil => exact absurd rfl hArgs
  | cons arg args ih =>
      obtain ⟨fuel, rfl⟩ := Nat.exists_eq_add_of_le' (Nat.one_le_of_lt hFuel)
      obtain ⟨hFirst, hRest⟩ := List.forall_mem_cons.mp hPlain
      obtain ⟨type, hType, hToken⟩ := print_token hFirst
      have hKnown : type ≠ .invalid ∧ type ∈ [.string, .float, .integer] := by
        obtain rfl | rfl := hType
        · exact ⟨nofun, by decide⟩
        · exact ⟨nofun, by decide⟩
      cases args with
      | nil =>
          have hWords : tokensOf (printArgs [arg]) ++ after = (type, arg) :: (.operator, .int (uop1 ')')) :: after := by
            rw [← hToken]
            rfl
          rw [hWords]
          refine Reads.bind (reads_getToken hKnown.1 (by decide) hKnown.2) ?_
          rintro _ ⟨k, rfl⟩
          refine Reads.bind (reads_getTokenIf nofun (by decide) (by decide) fun _ => rfl) ?_
          rintro _ ⟨k, rfl⟩
          exact .ret rfl
      | cons next args =>
          have hWords : tokensOf (printArgs (arg :: next :: args)) ++ after =
              (type, arg) :: (.symbol, .string ",") :: (tokensOf (printArgs (next :: args)) ++ after) := by
            rw [← hToken]
            rfl
          have hMore := ih nofun hRest { expression with args := expression.args ++ [arg] }
            (Nat.le_of_succ_le_succ hFuel)
          rw [List.append_assoc] at hMore
          rw [hWords]
          refine Reads.bind (reads_getToken hKnown.1 (by decide) hKnown.2) ?_
          rintro _ ⟨k, rfl⟩
          refine Reads.bind (reads_getTokenIf nofun (by decide) (by decide) fun _ => rfl) ?_
          rintro _ ⟨k, rfl⟩
          dsimp only
          rw [if_neg (by decide +kernel)]
          exact hMore

/-- What was taken for a scope is none where a call begins. -/
theorem reads_scopes {data : Data} {scopes : List ScopeType} :
    Reads ((.operator, data) :: after) (parseScopes (fuel + 1) scopes) (· = scopes) ((.operator, data) :: after) :=
  Reads.next (reads_getToken_none nofun (by decide) (by decide)) (.ret rfl)

theorem reads_call {expr : Tree.Expression} (hPlain : expr.Plain) (hFuel : expr.args.length < fuel) :
    Reads (tokensOf expr.call ++ after) (parseExpression fuel) (· = expr) after := by
  obtain ⟨scopes, function, args⟩ := expr
  obtain ⟨hScopes, ⟨-, hGoto⟩, hArgs⟩ := hPlain
  obtain rfl : scopes = [] := hScopes
  have hName : (Data.string function).toString ≠ "goto" := hGoto
  obtain ⟨fuel, rfl⟩ := Nat.exists_eq_add_of_le' (Nat.one_le_of_lt hFuel)
  refine Reads.bind (reads_getToken nofun (by decide) (by decide)) ?_
  rintro _ ⟨k, rfl⟩
  dsimp only
  rw [if_neg hName]
  refine Reads.next reads_scopes ?_
  refine Reads.bind (reads_getTokenIf nofun (by decide) (by decide) fun _ => rfl) ?_
  rintro _ ⟨k, rfl⟩
  cases args with
  | nil =>
      refine Reads.bind (reads_getTokenIf nofun (by decide) (by decide) fun _ => rfl) ?_
      rintro _ ⟨k, rfl⟩
      exact .ret rfl
  | cons arg args =>
      obtain ⟨type, hType, hToken⟩ := print_token (hArgs arg List.mem_cons_self)
      obtain ⟨rest, hWords⟩ : ∃ rest, tokensOf (printArgs (arg :: args)) ++ after = (type, arg) :: rest := by
        rw [← hToken]
        cases args with
        | nil => exact ⟨_, rfl⟩
        | cons next args => exact ⟨_, rfl⟩
      have hNone : Reads (tokensOf (printArgs (arg :: args)) ++ after) (getTokenIf (isOperator ')') [.operator])
          (· = none) (tokensOf (printArgs (arg :: args)) ++ after) := by
        rw [hWords]
        obtain rfl | rfl := hType
        · exact reads_getTokenIf_none nofun (by decide) (.inl (by decide))
        · exact reads_getTokenIf_none nofun (by decide) (.inl (by decide))
      refine hNone.next ?_
      exact reads_args (List.cons_ne_nil arg args) hArgs ⟨[], function, []⟩ (Nat.le_of_lt hFuel)

theorem target_spec {expr : Tree.Expression} {name : String} (hTarget : expr.target = some name) :
    expr.function = "setstate" ∧ expr.args = [.string name] ∧ IsName name := by
  unfold Expression.target at hTarget
  split at hTarget
  case h_1 _ hArgs =>
    split at hTarget
    case isTrue hGoto =>
      cases hTarget
      exact ⟨hGoto.1, hArgs, hGoto.2⟩
    case isFalse => cases hTarget
  case h_2 => cases hTarget

theorem reads_expression {expr : Tree.Expression} (hPlain : expr.Plain) (hFuel : expr.args.length < fuel) :
    Reads (tokensOf (expr.print style) ++ after) (parseExpression fuel) (· = expr) after := by
  rw [Expression.print]
  split
  case h_2 => exact reads_call hPlain hFuel
  case h_1 name hTarget =>
    split
    case isFalse => exact reads_call hPlain hFuel
    case isTrue =>
      obtain ⟨hFunction, hArgs, -⟩ := target_spec hTarget
      obtain ⟨scopes, function, args⟩ := expr
      obtain rfl : scopes = [] := hPlain.scopes
      obtain rfl : function = "setstate" := hFunction
      obtain rfl : args = [.string name] := hArgs
      refine Reads.bind (reads_getToken nofun (by decide) (by decide)) ?_
      rintro _ ⟨k, rfl⟩
      refine Reads.bind (reads_getToken nofun (by decide) (by decide)) ?_
      rintro _ ⟨k, rfl⟩
      exact .ret rfl

theorem length_printArgs (args : List Data) : args.length ≤ (printArgs args).length := by
  induction args with
  | nil => exact Nat.zero_le _
  | cons arg args ih =>
      cases args with
      | nil => exact Nat.le_of_lt (Nat.lt_add_one _)
      | cons next args => exact Nat.succ_le_succ (Nat.le_succ_of_le ih)

theorem length_print (expr : Tree.Expression) : expr.args.length < (expr.print style).length := by
  have hCall : expr.args.length < expr.call.length :=
    Nat.lt_succ_of_le (Nat.le_succ_of_le (length_printArgs expr.args))
  rw [Expression.print]
  split
  case h_2 => exact hCall
  case h_1 name hTarget =>
    split
    case isFalse => exact hCall
    case isTrue =>
      rw [(target_spec hTarget).2.1]
      exact Nat.one_lt_two

theorem tokensOf_append (words more : List Lexeme) : tokensOf (words ++ more) = tokensOf words ++ tokensOf more :=
  List.map_append

@[simp] theorem length_tokensOf (words : List Lexeme) : (tokensOf words).length = words.length :=
  List.length_map _

/-- An expression with enough fuel for all that is ahead. -/
theorem reads_expression_ahead {expr : Tree.Expression} (hPlain : expr.Plain)
    (hFuel : (tokensOf (expr.print style) ++ after).length ≤ fuel) :
    Reads (tokensOf (expr.print style) ++ after) (parseExpression fuel) (· = expr) after := by
  rw [List.length_append, length_tokensOf] at hFuel
  exact reads_expression hPlain (Nat.lt_of_lt_of_le (length_print expr) (Nat.le_of_add_right_le hFuel))

theorem reads_action {expr : Tree.Expression} (hPlain : expr.Plain)
    (hFuel : (tokensOf (expr.print style) ++ after).length ≤ fuel) :
    Reads (tokensOf (expr.print style) ++ after) (parseAction fuel) (· = ⟨.none, .empty, expr⟩) after :=
  Reads.next (reads_expression_ahead hPlain hFuel) (.ret rfl)

theorem reads_rule {expr action : Tree.Expression} (hExpr : expr.Plain) (hAction : action.Plain)
    (hFuel : (tokensOf (expr.print style ++ action.print style) ++ after).length ≤ fuel) :
    Reads (tokensOf (expr.print style ++ action.print style) ++ after) (parseRule fuel)
      (· = ⟨expr, ⟨.none, .empty, action⟩⟩) after := by
  rw [tokensOf_append, List.append_assoc] at hFuel ⊢
  have hRest : (tokensOf (action.print style) ++ after).length ≤ fuel := by
    rw [List.length_append] at hFuel
    exact Nat.le_of_add_left_le hFuel
  refine Reads.next (reads_expression_ahead hExpr hFuel) ?_
  exact Reads.next (reads_action hAction hRest) (.ret rfl)

theorem reads_condition {cond : ConditionalType} {condExpr expr : Tree.Expression} (hCond : condExpr.Plain)
    (hExpr : expr.Plain) (hFuel : (tokensOf (condExpr.print style ++ expr.print style) ++ after).length ≤ fuel) :
    Reads (tokensOf (condExpr.print style ++ expr.print style) ++ after) (parseCondition fuel cond)
      (· = ⟨cond, condExpr, expr⟩) after :=
  Reads.next (reads_rule hCond hExpr hFuel) (.ret rfl)

end Words

section Blocks

open Tree

variable {middle after last : Tokens} {style : Style} {fuel : Nat} {onError : String → Parse Block}
  {block block' : Block} {R : Block → Prop}

/-- The loop goes on behind an entry of all blocks. -/
theorem reads_commonEntry {entry : String} (hEntry : Reads middle (commonEntry fuel entry block) (· = some block') after)
    (hMore : Reads after (parseRuleActionBlock onError fuel block') R last) :
    Reads (tokensOf [.word entry] ++ middle) (parseRuleActionBlock onError (fuel + 1) block) R last := by
  refine Reads.bind (reads_getToken nofun (by decide) (by decide)) ?_
  rintro _ ⟨k, rfl⟩
  dsimp only
  rw [if_pos rfl]
  exact Reads.next hEntry hMore

theorem reads_stateEntry {entry : String} (hCommon : commonEntry fuel entry block = pure none)
    (hEntry : Reads middle (stateEntry fuel entry block) (· = some block') after)
    (hMore : Reads after (parseRuleActionBlock onError fuel block') R last) :
    Reads (tokensOf [.word entry] ++ middle) (parseRuleActionBlock onError (fuel + 1) block) R last := by
  refine Reads.bind (reads_getToken nofun (by decide) (by decide)) ?_
  rintro _ ⟨k, rfl⟩
  dsimp only
  rw [if_pos rfl]
  have hNone : Reads middle (commonEntry fuel entry block) (· = none) middle := by
    rw [hCommon]
    exact .ret rfl
  exact Reads.next hNone (Reads.next hEntry hMore)

theorem reads_actionEntry {action : Tree.Action} (hPlain : action.Plain)
    (hFuel : (tokensOf (action.print style) ++ after).length ≤ fuel + 1)
    (hMore : Reads after (parseRuleActionBlock onError fuel (block.addAction action)) R last) :
    Reads (tokensOf (action.print style) ++ after) (parseRuleActionBlock onError (fuel + 1) block) R last := by
  obtain ⟨cond, condExpr, expr⟩ := action
  obtain ⟨hCond, hExpr⟩ := hPlain
  have hLength {word : String} {words : List Lexeme} (h : (tokensOf (.word word :: words) ++ after).length ≤ fuel + 1) :
      (tokensOf words ++ after).length ≤ fuel := Nat.le_of_succ_le_succ h
  cases cond with
  | none =>
      obtain rfl : condExpr = .empty := hCond
      refine reads_commonEntry ?_ hMore
      rw [commonEntry, if_neg (by decide), if_pos rfl]
      exact Reads.next (reads_action hExpr (hLength hFuel)) (.ret rfl)
  | ifTrue =>
      refine reads_commonEntry ?_ hMore
      rw [commonEntry, if_neg (by decide), if_neg (by decide), if_pos rfl]
      exact Reads.next (reads_condition hCond hExpr (hLength hFuel)) (.ret rfl)
  | elseIf =>
      refine reads_commonEntry ?_ hMore
      have hWord : (if style.elif ⟨.elseIf, condExpr, expr⟩ then "elif" else "elseif") = "elseif" ∨
          (if style.elif ⟨.elseIf, condExpr, expr⟩ then "elif" else "elseif") = "elif" := by
        split
        · exact .inr rfl
        · exact .inl rfl
      have hEntry : Reads (tokensOf (condExpr.print style ++ expr.print style) ++ after)
          (parseCondition fuel .elseIf >>= fun action => pure (some (block.addAction action)))
          (· = some (block.addAction ⟨.elseIf, condExpr, expr⟩)) after :=
        Reads.next (reads_condition hCond hExpr (hLength hFuel)) (.ret rfl)
      rcases hWord with hWord | hWord
      · rw [hWord, commonEntry, if_neg (by decide), if_neg (by decide), if_neg (by decide), if_pos (.inl rfl)]
        exact hEntry
      · rw [hWord, commonEntry, if_neg (by decide), if_neg (by decide), if_neg (by decide), if_pos (.inr rfl)]
        exact hEntry
  | orElse =>
      obtain rfl : condExpr = .empty := hCond
      refine reads_commonEntry ?_ hMore
      rw [commonEntry, if_neg (by decide), if_neg (by decide), if_neg (by decide), if_neg (by decide), if_pos rfl]
      exact Reads.next (reads_action hExpr (hLength hFuel)) (.ret rfl)

theorem length_behind {words : List Lexeme} (hWords : 0 < words.length)
    (hFuel : (tokensOf words ++ after).length < fuel + 1) : after.length < fuel := by
  rw [List.length_append, length_tokensOf] at hFuel
  omega

theorem action_nonempty (action : Tree.Action) : 0 < (action.print style).length := by
  rw [Action.print]
  split
  all_goals exact Nat.succ_pos _

theorem reads_actions (onError : String → Parse Block) {actions : List Tree.Action} (hPlain : ∀ action ∈ actions, action.Plain) (block : Block)
    (hFuel : (tokensOf (actions.flatMap (Action.print style) ++ [.sign '}']) ++ after).length < fuel) :
    Reads (tokensOf (actions.flatMap (Action.print style) ++ [.sign '}']) ++ after)
      (parseRuleActionBlock onError fuel block)
      (· = { block with state := { block.state with actions := block.state.actions ++ actions } }) after := by
  induction actions generalizing fuel block with
  | nil =>
      obtain ⟨fuel, rfl⟩ := Nat.exists_eq_add_of_le' (Nat.one_le_of_lt hFuel)
      refine Reads.bind (reads_getToken nofun (by decide) (by decide)) ?_
      rintro _ ⟨k, rfl⟩
      dsimp only
      have hBrace : (Data.string (String.ofList ['}'])).toString = "\x7d" := rfl
      rw [if_neg nofun, if_pos hBrace, List.append_nil]
      exact .ret rfl
  | cons action actions ih =>
      obtain ⟨fuel, rfl⟩ := Nat.exists_eq_add_of_le' (Nat.one_le_of_lt hFuel)
      obtain ⟨hFirst, hRest⟩ := List.forall_mem_cons.mp hPlain
      rw [List.flatMap_cons, List.append_assoc, tokensOf_append, List.append_assoc] at hFuel ⊢
      have hLess := length_behind (action_nonempty action) hFuel
      have hMore := ih hRest (block.addAction action) hLess
      refine reads_actionEntry hFirst (Nat.le_of_lt hFuel) ?_
      rwa [Block.addAction, List.append_assoc] at hMore

/-- More rules, and the goal that is set now. -/
def Block.withRules (block : Block) (rules : List Tree.Rule) (goalRule : Nat) : Block :=
  { block with state := { block.state with rules := block.state.rules ++ rules, goalRule := goalRule } }

@[simp] theorem withRules_goalRule (block : Block) (rules : List Tree.Rule) (goalRule : Nat) :
    (block.withRules rules goalRule).state.goalRule = goalRule := rfl

theorem withRules_cons (block : Block) (rule : Tree.Rule) (rules : List Tree.Rule) (goal goalRule : Nat) :
    (block.withRules [rule] goal).withRules rules goalRule = block.withRules (rule :: rules) goalRule := by
  simp only [Block.withRules, List.append_assoc, List.singleton_append]

theorem goal_cons (n goalRule old count : Nat) :
    (if n ≤ goalRule ∧ goalRule < n + (count + 1) then goalRule else old) =
      if n + 1 ≤ goalRule ∧ goalRule < n + 1 + count then goalRule
        else if n = goalRule then goalRule else old := by
  grind

theorem reads_ruleEntry {rule : Tree.Rule} (hPlain : rule.Plain) {n goalRule : Nat}
    (hCount : block.state.rules.length = n)
    (hFuel : (tokensOf (rule.print style) ++ after).length ≤ fuel)
    (hMore : Reads after (parseRuleActionBlock onError fuel
      (block.withRules [rule] (if n = goalRule then goalRule else block.state.goalRule))) R last) :
    Reads (tokensOf [.word (if n = goalRule then "goal" else "rule")] ++ (tokensOf (rule.print style) ++ after))
      (parseRuleActionBlock onError (fuel + 1) block) R last := by
  obtain ⟨expr, cond, condExpr, action⟩ := rule
  obtain ⟨hExpr, hCond, hEmpty, hAction⟩ := hPlain
  obtain rfl : cond = .none := hCond
  obtain rfl : condExpr = .empty := hEmpty
  have hRule := reads_rule hExpr hAction hFuel
  by_cases hGoal : n = goalRule
  · rw [if_pos hGoal] at hMore ⊢
    refine reads_stateEntry ?_ ?_ hMore
    · rw [commonEntry, if_neg (by decide), if_neg (by decide), if_neg (by decide), if_neg (by decide),
        if_neg (by decide)]
    · rw [stateEntry, if_neg (by decide), if_pos rfl]
      refine Reads.next hRule (.ret ?_)
      rw [Block.addRule, Block.withRules, List.length_append, hCount, hGoal]
      rfl
  · rw [if_neg hGoal] at hMore ⊢
    refine reads_commonEntry ?_ hMore
    rw [commonEntry, if_pos rfl]
    exact Reads.next hRule (.ret rfl)

/-- The rules are read one by one, up to what follows them. -/
theorem reads_rules {rules : List Tree.Rule} (hPlain : ∀ rule ∈ rules, rule.Plain) (block : Block)
    {n goalRule : Nat} (hCount : block.state.rules.length = n)
    (hFuel : (tokensOf (printRules style goalRule n rules) ++ middle).length < fuel)
    (hMore : ∀ fuel', middle.length < fuel' → Reads middle (parseRuleActionBlock onError fuel'
      (block.withRules rules (if n ≤ goalRule ∧ goalRule < n + rules.length then goalRule
        else block.state.goalRule))) R last) :
    Reads (tokensOf (printRules style goalRule n rules) ++ middle) (parseRuleActionBlock onError fuel block) R last := by
  induction rules generalizing fuel block n with
  | nil =>
      have hSame := hMore fuel hFuel
      rwa [if_neg (by simp), Block.withRules, List.append_nil] at hSame
  | cons rule rules ih =>
      obtain ⟨fuel, rfl⟩ := Nat.exists_eq_add_of_le' (Nat.one_le_of_lt hFuel)
      obtain ⟨hFirst, hRest⟩ := List.forall_mem_cons.mp hPlain
      have hWords : tokensOf (printRules style goalRule n (rule :: rules)) ++ middle =
          tokensOf [.word (if n = goalRule then "goal" else "rule")] ++
            (tokensOf (rule.print style) ++ (tokensOf (printRules style goalRule (n + 1) rules) ++ middle)) := by
        rw [← List.append_assoc (tokensOf (rule.print style)), ← tokensOf_append]
        rfl
      rw [hWords] at hFuel ⊢
      have hLess : (tokensOf (rule.print style) ++
          (tokensOf (printRules style goalRule (n + 1) rules) ++ middle)).length < fuel :=
        Nat.lt_of_succ_lt_succ hFuel
      refine reads_ruleEntry hFirst hCount (Nat.le_of_lt hLess) ?_
      refine ih hRest _ ?_ ?_ fun fuel' hFuel' => ?_
      · rw [Block.withRules, List.length_append, hCount]
        rfl
      · rw [List.length_append] at hLess
        exact Nat.lt_of_le_of_lt (Nat.le_add_left ..) hLess
      · rw [withRules_cons, withRules_goalRule, ← goal_cons n goalRule block.state.goalRule rules.length]
        exact hMore fuel' hFuel'

theorem reads_brace : Reads (tokensOf [.sign '{'] ++ after) getBrace (· = true) after := by
  refine Reads.bind (reads_getToken nofun (by decide) (by decide)) ?_
  rintro _ ⟨k, rfl⟩
  exact .ret rfl

theorem goal_plain {state : Tree.State} (hPlain : state.Plain) :
    (if 0 ≤ state.goalRule ∧ state.goalRule < 0 + state.rules.length then state.goalRule else 0) = state.goalRule := by
  rcases hPlain.goalRule with hLess | ⟨-, hZero⟩
  · exact if_pos ⟨Nat.zero_le _, (Nat.zero_add _).symm ▸ hLess⟩
  · rw [hZero, ite_self]

theorem reads_desc {desc : String} {state : Tree.State} :
    Reads (tokensOf [.quoted desc] ++ after) (stateEntry fuel "desc" ⟨state, false⟩)
      (· = some ⟨{ state with desc := desc }, true⟩) after := by
  have hDesc : Reads (tokensOf [.quoted desc] ++ after) parseDesc (· = desc) after := by
    refine Reads.bind (reads_getToken nofun (by decide) (by decide)) ?_
    rintro _ ⟨k, rfl⟩
    exact .ret rfl
  rw [stateEntry, if_pos rfl]
  exact Reads.next hDesc (.ret rfl)

/-- The rules, the actions and the end of a state. -/
theorem reads_body (onError : String → Parse Block) {state : Tree.State} (hPlain : state.Plain)
    (hFuel : (tokensOf (printRules style state.goalRule 0 state.rules) ++
      (tokensOf (state.actions.flatMap (Action.print style) ++ [.sign '}']) ++ after)).length < fuel) :
    Reads (tokensOf (printRules style state.goalRule 0 state.rules) ++
        (tokensOf (state.actions.flatMap (Action.print style) ++ [.sign '}']) ++ after))
      (parseRuleActionBlock onError fuel ⟨⟨"", state.desc, [], [], 0⟩, true⟩)
      (· = ⟨{ state with name := "" }, true⟩) after := by
  refine reads_rules hPlain.rules ⟨⟨"", state.desc, [], [], 0⟩, true⟩ rfl hFuel fun fuel' hFuel' => ?_
  have hActions := reads_actions onError hPlain.actions
    (Block.withRules ⟨⟨"", state.desc, [], [], 0⟩, true⟩ state.rules state.goalRule) hFuel'
  dsimp only
  rw [goal_plain hPlain]
  exact hActions

theorem reads_state {state : Tree.State} (hPlain : state.Plain)
    (hFuel : (tokensOf (state.block style) ++ after).length < fuel) :
    Reads (tokensOf (state.block style) ++ after) (parseStateBlock fuel) (· = (state.name, state)) after := by
  obtain ⟨fuel, rfl⟩ := Nat.exists_eq_add_of_le' (Nat.one_le_of_lt hFuel)
  have hWords : tokensOf (state.block style) ++ after =
      tokensOf [.word state.name] ++ (tokensOf [.sign '{'] ++ (tokensOf [.word "desc"] ++
        (tokensOf [.quoted state.desc] ++ (tokensOf (printRules style state.goalRule 0 state.rules) ++
          (tokensOf (state.actions.flatMap (Action.print style) ++ [.sign '}']) ++ after))))) := by
    rw [← List.append_assoc (tokensOf (printRules style state.goalRule 0 state.rules)), ← tokensOf_append]
    rfl
  rw [hWords] at hFuel ⊢
  have hBody := reads_body (stateError state.name) hPlain
    (Nat.lt_of_succ_lt (Nat.lt_of_succ_lt (Nat.lt_of_succ_lt (Nat.lt_of_succ_lt_succ hFuel))))
  refine Reads.bind (reads_getToken nofun (by decide) (by decide)) ?_
  rintro _ ⟨k, rfl⟩
  refine Reads.next reads_brace ?_
  dsimp only
  rw [if_pos rfl]
  exact Reads.next (reads_stateEntry rfl reads_desc hBody) (.ret rfl)

end Blocks

section Main

open Tree

variable {middle after last : Tokens} {fuel : Nat} {block block' : MainBlock} {R : Tree.Info → Prop}

theorem reads_mainEntry {entry : String} (hEntry : Reads middle (mainEntry entry block) (· = some block') after)
    (hMore : Reads after (parseMain fuel block') R last) :
    Reads (tokensOf [.word entry] ++ middle) (parseMain (fuel + 1) block) R last := by
  refine Reads.bind (reads_getToken nofun (by decide) (by decide)) ?_
  rintro _ ⟨k, rfl⟩
  dsimp only
  rw [if_pos rfl]
  exact Reads.next hEntry hMore

theorem reads_mainEnd :
    Reads (tokensOf [.sign '}'] ++ after) (parseMain (fuel + 1) block) (· = block.info) after := by
  refine Reads.bind (reads_getToken nofun (by decide) (by decide)) ?_
  rintro _ ⟨k, rfl⟩
  have hBrace : (Data.string (String.ofList ['}'])).toString = "\x7d" := rfl
  dsimp only
  rw [if_neg nofun, if_pos hBrace]
  exact .ret rfl

theorem reads_disabled (disabled : Bool) (hOld : block.info.disabled = false) :
    Reads (tokensOf ((if disabled then [.word "disabled"] else []) ++ [.sign '}']) ++ after)
      (parseMain (fuel + 2) block) (· = { block.info with disabled := disabled }) after := by
  cases disabled with
  | false =>
      have hSame : { block.info with disabled := false } = block.info := by rw [← hOld]
      rw [hSame]
      exact reads_mainEnd
  | true =>
      have hEntry : Reads (tokensOf [.sign '}'] ++ after) (mainEntry "disabled" block)
          (· = some { block with info := { block.info with disabled := true } })
          (tokensOf [.sign '}'] ++ after) := by
        rw [mainEntry, if_neg (by decide), if_neg (by decide), if_neg (by decide), if_neg (by decide), if_pos rfl,
          if_neg (by simp [hOld])]
        exact .ret rfl
      exact reads_mainEntry hEntry reads_mainEnd

theorem reads_hidden (shown : HiddenType) (disabled : Bool) (hOld : block.info.hidden = .notHidden)
    (hDisabled : block.info.disabled = false) :
    Reads (tokensOf (shown.print ++ ((if disabled then [.word "disabled"] else []) ++ [.sign '}'])) ++ after)
      (parseMain (fuel + 3) block) (· = { block.info with hidden := shown, disabled := disabled }) after := by
  have hAttribute : block.info.hidden ≠ .notHidden → False := fun h => h hOld
  cases shown with
  | notHidden =>
      have hSame : { block.info with hidden := .notHidden, disabled := disabled } =
          { block.info with disabled := disabled } := by rw [← hOld]
      rw [hSame]
      exact reads_disabled disabled hDisabled
  | hidden =>
      have hEntry (middle : Tokens) : Reads middle (mainEntry "hidden" block)
          (· = some { block with info := { block.info with hidden := .hidden } }) middle := by
        rw [mainEntry, if_neg (by decide), if_neg (by decide), if_pos rfl, if_neg hAttribute]
        exact .ret rfl
      exact reads_mainEntry (hEntry _) (reads_disabled disabled hDisabled)
  | hiddenEnd =>
      have hEntry (middle : Tokens) : Reads middle (mainEntry "hidden_end" block)
          (· = some { block with info := { block.info with hidden := .hiddenEnd } }) middle := by
        rw [mainEntry, if_neg (by decide), if_neg (by decide), if_neg (by decide), if_pos rfl, if_neg hAttribute]
        exact .ret rfl
      exact reads_mainEntry (hEntry _) (reads_disabled disabled hDisabled)

theorem halves (version : BitVec 32) : version >>> 16 <<< 16 ||| (version &&& 0xFFFF &&& 0xFFFF) = version := by
  have hLow : ∀ i < 32, (0xFFFF : BitVec 32).getLsbD i = decide (i < 16) := by decide
  apply BitVec.eq_of_getLsbD_eq
  intro i hi
  simp only [BitVec.getLsbD_or, BitVec.getLsbD_shiftLeft, BitVec.getLsbD_ushiftRight, BitVec.getLsbD_and, hLow i hi,
    hi]
  by_cases h : i < 16
  · simp [h]
  · simp [h, Nat.add_sub_cancel' (Nat.le_of_not_lt h)]

theorem ofInt_toNat (v : BitVec 32) : BitVec.ofInt 32 (v.toNat : Int) = v := by
  rw [BitVec.ofInt_natCast, BitVec.ofNat_toNat, BitVec.setWidth_eq]

theorem reads_version (version : BitVec 32) :
    Reads (tokensOf [.number (version >>> 16).toNat, .sign '.', .number (version &&& 0xFFFF).toNat] ++ after)
      parseVersion (· = version) after := by
  refine Reads.bind (reads_getToken nofun (by decide) (by decide)) ?_
  rintro _ ⟨k, rfl⟩
  refine Reads.bind (reads_getTokenIf nofun (by decide) (by decide) fun _ => rfl) ?_
  rintro _ ⟨k, rfl⟩
  refine Reads.bind (reads_getToken nofun (by decide) (by decide)) ?_
  rintro _ ⟨k, rfl⟩
  refine .ret ?_
  change BitVec.ofInt 32 ((version >>> 16).toNat : Int) <<< 16 |||
    (BitVec.ofInt 32 ((version &&& 0xFFFF).toNat : Int) &&& 0xFFFF) = version
  rw [ofInt_toNat, ofInt_toNat, halves]

theorem reads_questName {name : String} :
    Reads (tokensOf [.quoted name] ++ after) parseQuestName (· = name) after := by
  refine Reads.bind (reads_getToken nofun (by decide) (by decide)) ?_
  rintro _ ⟨k, rfl⟩
  exact .ret rfl

theorem reads_main {info : Tree.Info} (hFuel : (tokensOf info.block ++ after).length ≤ fuel) :
    Reads (tokensOf info.block ++ after) (parseMainBlock fuel) (· = info) after := by
  have hLength : 7 ≤ info.block.length := by
    rw [Info.block, List.length_append]
    exact Nat.le_add_right ..
  rw [List.length_append, length_tokensOf] at hFuel
  obtain ⟨fuel, rfl⟩ : ∃ n, fuel = n + 5 := Nat.exists_eq_add_of_le' (by omega)
  have hWords : tokensOf info.block ++ after = tokensOf [.sign '{'] ++ (tokensOf [.word "questname"] ++
      (tokensOf [.quoted info.name] ++ (tokensOf [.word "version"] ++
      (tokensOf [.number (info.version >>> 16).toNat, .sign '.', .number (info.version &&& 0xFFFF).toNat] ++
        (tokensOf (info.hidden.print ++ ((if info.disabled then [.word "disabled"] else []) ++ [.sign '}'])) ++
          after))))) := rfl
  rw [hWords]
  refine Reads.next reads_brace ?_
  rw [if_pos rfl]
  refine reads_mainEntry (Reads.next reads_questName (.ret rfl)) ?_
  refine reads_mainEntry (Reads.next (reads_version info.version) (.ret rfl)) ?_
  exact reads_hidden info.hidden info.disabled rfl rfl

end Main

section Global

open Tree

variable {style : Style} {fuel : Nat}

theorem find_behind {states : SortedMap String Tree.State} {name : String} (h : ∀ e ∈ states.entries, e.1 < name) :
    states.find name = none := by
  cases hFound : states.find name with
  | none => rfl
  | some state => exact absurd (h _ (SortedMap.mem_of_find hFound)) (lt_irrefl name)

/-- Each state is put behind those that have been read. -/
theorem reads_states {entries : List (String × Tree.State)}
    (hPlain : ∀ entry ∈ entries, entry.2.name = entry.1 ∧ entry.2.Plain) (quest : Tree.Quest)
    (hInfo : quest.info.isSome) (hSorted : (quest.states.entries ++ entries).Pairwise fun a b => a.1 < b.1)
    (hFuel : (tokensOf (printStates style entries) ++ [fileEnd]).length < fuel) :
    Reads (tokensOf (printStates style entries) ++ [fileEnd])
      (parseGlobal fuel quest)
      (fun read => read.info = quest.info ∧ read.states.entries = quest.states.entries ++ entries) [] := by
  induction entries generalizing fuel quest with
  | nil =>
      obtain ⟨fuel, rfl⟩ := Nat.exists_eq_add_of_le' (Nat.one_le_of_lt hFuel)
      refine Reads.bind (reads_getToken nofun (by decide) (by decide)) ?_
      rintro _ ⟨k, rfl⟩
      dsimp only
      rw [if_neg nofun, if_pos hInfo]
      exact .ret ⟨rfl, (List.append_nil _).symm⟩
  | cons entry entries ih =>
      obtain ⟨fuel, rfl⟩ := Nat.exists_eq_add_of_le' (Nat.one_le_of_lt hFuel)
      obtain ⟨hFirst, hRest⟩ := List.forall_mem_cons.mp hPlain
      obtain ⟨name, state⟩ := entry
      obtain ⟨hName, hState⟩ : state.name = name ∧ state.Plain := hFirst
      subst hName
      have hKeys : ∀ e ∈ quest.states.entries, e.1 < state.name := fun e he =>
        (List.pairwise_append.mp hSorted).2.2 e he _ List.mem_cons_self
      have hWords : tokensOf (printStates style ((state.name, state) :: entries)) ++
          [fileEnd] = tokensOf [.word "state"] ++ (tokensOf (state.block style) ++
            (tokensOf (printStates style entries) ++ [fileEnd])) := by
        rw [← List.append_assoc (tokensOf (state.block style)), ← tokensOf_append]
        rfl
      have hInsert : (quest.states.insert state.name state).entries =
          quest.states.entries ++ [(state.name, state)] := SortedMap.insertEntry_last hKeys
      rw [List.append_cons quest.states.entries, ← hInsert] at hSorted
      rw [hWords] at hFuel ⊢
      have hBlock : (tokensOf (state.block style) ++ (tokensOf (printStates style entries) ++
          [fileEnd])).length < fuel := Nat.lt_of_succ_lt_succ hFuel
      have hLess : (tokensOf (printStates style entries) ++
          [fileEnd]).length < fuel := by
        rw [List.length_append] at hBlock
        exact Nat.lt_of_le_of_lt (Nat.le_add_left ..) hBlock
      have hMore := ih hRest { quest with states := quest.states.insert state.name state } hInfo hSorted hLess
      refine Reads.bind (reads_getToken nofun (by decide) (by decide)) ?_
      rintro _ ⟨k, rfl⟩
      have hMain : (Data.string "state").toString ≠ "main" := by decide
      have hWord : (Data.string "state").toString = "state" := rfl
      dsimp only
      rw [if_pos rfl, if_neg hMain, if_pos hWord]
      refine Reads.next (reads_state hState hBlock) ?_
      dsimp only
      rw [find_behind hKeys, if_neg nofun]
      rwa [List.append_cons quest.states.entries, ← hInsert]

end Global

section Readable

open Tree

variable {style : Style} {words more : List Lexeme} {w : Lexeme}

def Readable (words : List Lexeme) : Prop := ∀ w ∈ words, w.Readable

theorem Readable.append (hWords : Readable words) (hMore : Readable more) : Readable (words ++ more) :=
  List.forall_mem_append.mpr ⟨hWords, hMore⟩

theorem Readable.cons (hFirst : w.Readable) (hRest : Readable words) : Readable (w :: words) :=
  List.forall_mem_cons.mpr ⟨hFirst, hRest⟩

theorem Readable.flatMap {α : Type} {xs : List α} {f : α → List Lexeme} (h : ∀ x ∈ xs, Readable (f x)) :
    Readable (xs.flatMap f) := by
  intro w hw
  obtain ⟨x, hx, hMem⟩ := List.mem_flatMap.mp hw
  exact h x hx w hMem

theorem readable_sign {c : Char} (h : c = '(' ∨ c = ')' ∨ c = ',' ∨ c = '.' ∨ c = '{' ∨ c = '}') :
    Readable [.sign c] :=
  .cons h nofun

theorem readable_arg {arg : Data} (hPlain : PlainData arg) : arg.print.Readable := by
  cases arg with
  | int n => exact (Int.toNat_lt hPlain.1).mpr hPlain.2
  | string s => exact trivial
  | bool b => exact hPlain.elim

theorem readable_args {args : List Data} (hPlain : ∀ arg ∈ args, PlainData arg) : Readable (printArgs args) := by
  induction args with
  | nil => exact readable_sign (by decide)
  | cons arg args ih =>
      obtain ⟨hFirst, hRest⟩ := List.forall_mem_cons.mp hPlain
      cases args with
      | nil => exact .cons (readable_arg hFirst) (readable_sign (by decide))
      | cons next args => exact .cons (readable_arg hFirst) (.append (readable_sign (by decide)) (ih hRest))

theorem readable_expression {expr : Tree.Expression} (hPlain : expr.Plain) : Readable (expr.print style) := by
  have hCall : Readable expr.call :=
    .cons hPlain.function.1 (.append (readable_sign (by decide)) (readable_args hPlain.args))
  rw [Expression.print]
  split
  case h_2 => exact hCall
  case h_1 name hTarget =>
    split
    case isFalse => exact hCall
    case isTrue => exact .cons (by decide : IsName "goto") (.cons (target_spec hTarget).2.2 nofun)

theorem readable_rules {goalRule n : Nat} {rules : List Tree.Rule} (hPlain : ∀ rule ∈ rules, rule.Plain) :
    Readable (printRules style goalRule n rules) := by
  induction rules generalizing n with
  | nil => exact nofun
  | cons rule rules ih =>
      obtain ⟨hFirst, hRest⟩ := List.forall_mem_cons.mp hPlain
      refine .cons ?_ (.append ?_ (ih hRest))
      · split
        · exact (by decide : IsName "goal")
        · exact (by decide : IsName "rule")
      · exact .append (readable_expression hFirst.expr) (readable_expression hFirst.action.2.2)

theorem readable_action {action : Tree.Action} (hPlain : action.Plain) : Readable (action.print style) := by
  obtain ⟨cond, condExpr, expr⟩ := action
  obtain ⟨hCond, hExpr⟩ := hPlain
  cases cond with
  | none => exact .cons (by decide : IsName "action") (readable_expression hExpr)
  | ifTrue =>
      exact .cons (by decide : IsName "if") (.append (readable_expression hCond) (readable_expression hExpr))
  | elseIf =>
      refine .cons ?_ (.append (readable_expression hCond) (readable_expression hExpr))
      split
      · exact (by decide : IsName "elif")
      · exact (by decide : IsName "elseif")
  | orElse => exact .cons (by decide : IsName "else") (readable_expression hExpr)

theorem readable_state {state : Tree.State} (hPlain : state.Plain) : Readable (state.print style) := by
  have hHead : Readable [.word "state", .word state.name, .sign '{', .word "desc", .quoted state.desc] :=
    .cons (by decide : IsName "state") (.cons hPlain.name (.append (readable_sign (by decide))
      (.cons (by decide : IsName "desc") (.cons trivial nofun))))
  refine hHead.append (.append (readable_rules hPlain.rules) (.append ?_ (readable_sign (by decide))))
  exact .flatMap fun action hAction => readable_action (hPlain.actions action hAction)

theorem readable_info (info : Tree.Info) : Readable info.print := by
  have hHead : Readable [.word "main", .sign '{', .word "questname", .quoted info.name] :=
    .cons (by decide : IsName "main") (.append (readable_sign (by decide))
      (.cons (by decide : IsName "questname") (.cons trivial nofun)))
  have hMajor : (info.version >>> 16).toNat < 2 ^ 31 := by
    rw [BitVec.toNat_ushiftRight, Nat.shiftRight_eq_div_pow]
    omega
  have hMinor : (info.version &&& 0xFFFF).toNat < 2 ^ 31 := by
    rw [BitVec.toNat_and]
    exact Nat.lt_of_le_of_lt Nat.and_le_right (by decide)
  have hVersion : Readable [.word "version", .number (info.version >>> 16).toNat, .sign '.',
      .number (info.version &&& 0xFFFF).toNat] :=
    .cons (by decide : IsName "version") (.cons hMajor (.append (readable_sign (by decide)) (.cons hMinor nofun)))
  have hHidden : Readable info.hidden.print := by
    cases info.hidden with
    | notHidden => exact nofun
    | hidden => exact .cons (by decide : IsName "hidden") nofun
    | hiddenEnd => exact .cons (by decide : IsName "hidden_end") nofun
  have hDisabled : Readable (if info.disabled then [.word "disabled"] else []) := by
    split
    · exact .cons (by decide : IsName "disabled") nofun
    · exact nofun
  exact hHead.append (hVersion.append (hHidden.append (hDisabled.append (readable_sign (by decide)))))

theorem readable_quest {quest : Tree.Quest} (hPlain : quest.Plain) : Readable (quest.print style) := by
  refine .append ?_ (.flatMap fun entry hEntry => readable_state (hPlain.states entry hEntry).2)
  cases quest.info with
  | none => exact nofun
  | some info => exact readable_info info

end Readable

section Quests

open Tree

theorem reads_quest {quest : Tree.Quest} (hPlain : quest.Plain) {style : Style} {fuel : Nat}
    (hFuel : (tokensOf (quest.print style) ++ [fileEnd]).length < fuel) :
    Reads (tokensOf (quest.print style) ++ [fileEnd]) (parseGlobal fuel ⟨none, .empty⟩) (· = quest) [] := by
  obtain ⟨fuel, rfl⟩ := Nat.exists_eq_add_of_le' (Nat.one_le_of_lt hFuel)
  obtain ⟨info, states⟩ := quest
  obtain ⟨info, rfl⟩ : ∃ i, info = some i := Option.isSome_iff_exists.mp hPlain.info
  have hWords : tokensOf (Quest.print style ⟨some info, states⟩) ++ [fileEnd] =
      tokensOf [.word "main"] ++ (tokensOf info.block ++ (tokensOf (printStates style states.entries) ++ [fileEnd])) := by
    rw [← List.append_assoc (tokensOf info.block), ← tokensOf_append]
    rfl
  rw [hWords] at hFuel ⊢
  have hBlock : (tokensOf info.block ++ (tokensOf (printStates style states.entries) ++ [fileEnd])).length < fuel :=
    Nat.lt_of_succ_lt_succ hFuel
  have hStates : (tokensOf (printStates style states.entries) ++ [fileEnd]).length < fuel := by
    rw [List.length_append] at hBlock
    exact Nat.lt_of_le_of_lt (Nat.le_add_left ..) hBlock
  refine Reads.bind (reads_getToken nofun (by decide) (by decide)) ?_
  rintro _ ⟨k, rfl⟩
  have hWord : (Data.string "main").toString = "main" := rfl
  dsimp only
  rw [if_pos rfl, if_pos hWord, if_neg nofun]
  refine Reads.next (reads_main (Nat.le_of_lt hBlock)) ?_
  have hRead := reads_states hPlain.states ⟨some info, .empty⟩ rfl states.sorted hStates
  refine hRead.strengthen ?_
  rintro ⟨_, _⟩ s ⟨⟨rfl, hEntries⟩, hRest⟩
  exact ⟨congrArg (Tree.Quest.mk (some info)) (SortedMap.ext_entries hEntries), hRest⟩

/-- However a quest is written and spelled, the same tree is read. -/
theorem readQuest_print {quest : Tree.Quest} (hPlain : quest.Plain) (style : Style) {text : Text}
    (hText : Spells (quest.print style) text) : ∃ least, ∀ fuel, least ≤ fuel → readQuest fuel text = .ok quest := by
  obtain ⟨tokens, hTokens, least, hLex⟩ :=
    Lexer.lexesTo_spelled hText (readable_quest hPlain) (.start text) rfl (Lexer.queued_start text)
  refine ⟨max least ((tokensOf (quest.print style) ++ [fileEnd]).length + 1), fun fuel hFuel => ?_⟩
  have hEnough : (tokensOf (quest.print style) ++ [fileEnd]).length < fuel := by omega
  have hRead := reads_quest hPlain hEnough (.start tokens) hTokens
  rw [readQuest, hLex fuel (by omega)]
  dsimp only
  cases hResult : parseGlobal fuel ⟨none, .empty⟩ (.start tokens) with
  | ok read s =>
      rw [hResult] at hRead
      obtain ⟨rfl, -⟩ := hRead
      rfl
  | error e s =>
      rw [hResult] at hRead
      exact hRead.elim

/-- A quest with a goal and with a text that needs escapes. -/
def lostRing : Tree.Quest where
  info := some ⟨"The \"lost\" ring", 0x10002, .hidden, false⟩
  states := ⟨[("begin", ⟨"begin", "Talk to Anne", [⟨⟨[], "talkedtonpc", [.int 3]⟩,
    ⟨.none, .empty, ⟨[], "setstate", [.string "done"]⟩⟩⟩],
    [⟨.elseIf, ⟨[], "lostitems", [.int 5, .int 1]⟩, ⟨[], "hint", [.string "Look\nagain"]⟩⟩], 0⟩)],
    List.pairwise_singleton _ _⟩

theorem lostRing_plain : lostRing.Plain where
  info := rfl
  states := List.forall_mem_singleton.mpr ⟨rfl, by decide, List.forall_mem_singleton.mpr
    ⟨⟨rfl, by decide, List.forall_mem_singleton.mpr ⟨by decide, by decide⟩⟩, rfl, rfl,
      ⟨rfl, by decide, List.forall_mem_singleton.mpr trivial⟩⟩,
    List.forall_mem_singleton.mpr ⟨⟨rfl, by decide, List.forall_mem_cons.mpr ⟨⟨by decide, by decide⟩,
      List.forall_mem_singleton.mpr ⟨by decide, by decide⟩⟩⟩, ⟨rfl, by decide, List.forall_mem_singleton.mpr trivial⟩⟩, .inl Nat.zero_lt_one⟩

theorem readQuest_lostRing : ∃ least, ∀ fuel, least ≤ fuel →
    readQuest fuel (spaced (lostRing.print ⟨fun _ => true, fun _ => true⟩)) = .ok lostRing :=
  readQuest_print lostRing_plain _ (spells_spaced _)

end Quests

end Parser

end Etheos.EOPlus
