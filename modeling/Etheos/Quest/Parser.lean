import Etheos.General.Hoare
import Etheos.General.SortedMap
import Etheos.Quest.Lexer
import Mathlib.Data.String.Basic

/-! The parser of quest files. -/
namespace Etheos.EOPlus

open General

/-! The trees that are read, with their arguments as they were written. -/

namespace Tree

inductive ScopeType
  | character | npc | map | world
  deriving Repr, DecidableEq

structure Expression where
  scopes : List ScopeType
  function : String
  args : List Data
  deriving Repr, DecidableEq

structure Action where
  cond : ConditionalType
  condExpr : Expression
  expr : Expression
  deriving Repr, DecidableEq

structure Rule where
  expr : Expression
  action : Action
  deriving Repr, DecidableEq

inductive HiddenType
  | notHidden | hidden | hiddenEnd
  deriving Repr, DecidableEq

structure Info where
  name : String
  version : BitVec 32
  hidden : HiddenType
  disabled : Bool
  deriving Repr, DecidableEq

structure State where
  name : String
  desc : String
  rules : List Rule
  actions : List Action
  goalRule : Nat
  deriving Repr, DecidableEq

/-- A quest whose main block has not been read has no `info`. -/
structure Quest where
  info : Option Info
  states : SortedMap String State
  deriving DecidableEq

def Expression.empty : Expression := ⟨[], "", []⟩

end Tree

namespace TokenType

def bits : TokenType → Nat
  | invalid => 0
  | identifier => 1
  | string => 2
  | integer => 4
  | float => 8
  | boolean => 16
  | operator => 32
  | symbol => 64
  | newLine => 128
  | endOfFile => 256

end TokenType

/-- `tokens` is `token_buffer` and behind it what has not been taken from the lexer. -/
structure TokenServer where
  tokens : List Token
  line : Int
  rejectToken : Token
  rejectLine : Int

inductive ParserFailure
  | error (what : String) (line : Int)
  | outOfFuel
  deriving Repr, DecidableEq

abbrev Parse := EStateM ParserFailure TokenServer

namespace TokenServer

def start (tokens : List Token) : TokenServer := ⟨tokens, 1, .plain .invalid, 1⟩

def putBack (s : TokenServer) (t : Token) : TokenServer where
  tokens := { t with newlines := -1 } :: (List.replicate t.newlines.toNat (.plain .newLine) ++ s.tokens)
  line := s.line - t.newlines - if t.type = .newLine then 1 else 0
  rejectToken := t
  rejectLine := s.line

/-- The loop of `GetToken`. -/
def nextToken (allow : Nat) : TokenServer → Int → List Token → Token × TokenServer
  | s, newlines, [] => (⟨.invalid, .int 0, newlines⟩, { s with tokens := [] })
  | s, newlines, t :: rest =>
      if t.type = .newLine then
        let s := { s with line := s.line + 1 }
        if TokenType.newLine.bits &&& allow = TokenType.newLine.bits then
          ({ t with newlines := newlines }, { s with tokens := rest })
        else nextToken allow s (newlines + 1) rest
      else ({ t with newlines := newlines }, { s with tokens := rest })

/-- A token of a type that is not allowed is put back. -/
def getToken (allow : Nat) (s : TokenServer) : Token × TokenServer :=
  let (t, s) := s.nextToken allow 0 s.tokens
  if t.type.bits &&& allow ≠ t.type.bits then (.plain .invalid, s.putBack t) else (t, s)

/-- `RejectLine`. -/
def errorLine (s : TokenServer) : Int := max s.line s.rejectLine

end TokenServer

section Errors

def opToString (h : Int) : String :=
  let names := [('(', '\x00', "("), (')', '\x00', ")"), ('&', '\x00', "&"), ('&', '&', "&&"),
    ('|', '\x00', "|"), ('|', '|', "||"), ('=', '\x00', "="), ('=', '=', "=="), ('!', '=', "!="),
    ('<', '\x00', "<"), ('<', '=', "<="), ('>', '\x00', ">"), ('>', '=', ">="), ('+', '\x00', "+"),
    ('-', '\x00', "-"), ('*', '\x00', "*"), ('/', '\x00', "/"), ('%', '\x00', "%"), ('~', '\x00', "~"),
    ('!', '\x00', "!"), ('-', '\x02', "-")]
  match names.find? (fun name => uop2 name.1 name.2.1 = h) with
  | some name => name.2.2
  | none => "(unknown)"

def cutString (s : String) : String :=
  if s.length > 16 then String.ofList (s.toList.take 13) ++ "..." else s

def tokenGotString (t : Token) : String :=
  match t.type with
  | .invalid => "invalid token"
  | .identifier => "identifier '" ++ t.data.toString ++ "'"
  | .string => "string '" ++ cutString t.data.toString ++ "'"
  | .integer => "integer '" ++ t.data.toString ++ "'"
  | .float => "float '" ++ t.data.toString ++ "'"
  | .boolean => "boolean '" ++ (if t.data = .bool true then "true" else "false") ++ "'"
  | .operator => "operator '" ++ opToString t.data.toInt ++ "'"
  | .symbol => "symbol '" ++ t.data.toString ++ "'"
  | .newLine => "new-line"
  | .endOfFile => "end of file"

end Errors

namespace Parser

variable {α : Type}

/-- `PARSER_ERROR`. -/
def fail (what : String) : Parse α := do
  throw (.error what (← get).errorLine)

/-- `PARSER_ERROR_GOT`. -/
def failGot (what : String) : Parse α := do
  fail (what ++ " Got: " ++ tokenGotString (← get).rejectToken)

def putBack (t : Token) : Parse Unit := modify (·.putBack t)

/-- The allowed types of tokens. -/
def allow (types : List TokenType) : Nat := types.foldr (fun type bits => type.bits ||| bits) 0

def getToken (types : List TokenType) : Parse (Option Token) := do
  let s ← get
  set (s.getToken (allow types)).2
  let t := (s.getToken (allow types)).1
  return if t.type = .invalid then none else some t

def getTokenIf (f : Token → Bool) (types : List TokenType) : Parse (Option Token) := do
  match ← getToken types with
  | none => return none
  | some t =>
      if f t then return some t
      else
        putBack t
        return none

def isSymbol (name : String) (t : Token) : Bool := t.data.toString = name

def isOperator (c : Char) (t : Token) : Bool := t.data.toInt = uop1 c

def parseVersion : Parse (BitVec 32) := do
  match ← getToken [.integer] with
  | none => failGot "Expected number after 'version'"
  | some t =>
      let version := BitVec.ofInt 32 t.data.toInt <<< 16
      match ← getTokenIf (isSymbol ".") [.symbol] with
      | none => return version
      | some _ =>
          match ← getToken [.integer] with
          | none => failGot "Expected number after '.' in version."
          | some t => return version ||| (BitVec.ofInt 32 t.data.toInt &&& 0xFFFF)

def scopeId (name : String) : Option Tree.ScopeType :=
  [("character", .character), ("npc", .npc), ("map", .map), ("world", .world)].lookup name

def parseScopes : Nat → List Tree.ScopeType → Parse (List Tree.ScopeType)
  | 0, _ => throw .outOfFuel
  | fuel + 1, scopes => do
      match ← getToken [.identifier] with
      | none => return scopes
      | some t =>
          match scopeId t.data.toString with
          | none =>
              putBack t
              return scopes
          | some scope =>
              match ← getTokenIf (isSymbol ".") [.symbol] with
              | none => failGot "Expected '.' after scope-identifier."
              | some _ => parseScopes fuel (scopes ++ [scope])

/-- Whether the token goes on with an argument list, or ends it. -/
def isDelimiter (t : Token) : Bool :=
  (t.type = .symbol && t.data.toString = ",") || (t.type = .operator && t.data.toInt = uop1 ')')

/-- The loop over the arguments. -/
def parseArgs : Nat → Tree.Expression → Parse Tree.Expression
  | 0, _ => throw .outOfFuel
  | fuel + 1, expression => do
      match ← getToken [.string, .float, .integer] with
      | none => failGot "Expected function-argument in function-argument-list."
      | some t =>
          let expression := { expression with args := expression.args ++ [t.data] }
          match ← getTokenIf isDelimiter [.symbol, .operator] with
          | none => failGot "Expected ',' or ')' after function-argument in function-argument-list."
          | some t => if t.data.toInt = uop1 ')' then return expression else parseArgs fuel expression

def parseExpression (fuel : Nat) : Parse Tree.Expression := do
  match ← getToken [.identifier] with
  | none => return .empty
  | some t =>
      if t.data.toString = "goto" then
        match ← getToken [.identifier] with
        | none => failGot "Expected identifier after 'goto'."
        | some tt => return ⟨[], "setstate", [.string tt.data.toString]⟩
      else
        let scopes ← parseScopes fuel []
        match ← getTokenIf (isOperator '(') [.operator] with
        | none => failGot "Expected '(' after function-name."
        | some _ =>
            match ← getTokenIf (isOperator ')') [.operator] with
            | some _ => return ⟨scopes, t.data.toString, []⟩
            | none => parseArgs fuel ⟨scopes, t.data.toString, []⟩

def parseQuestName : Parse String := do
  match ← getToken [.string] with
  | some t => return t.data.toString
  | none => failGot "Expected string after 'questname'."

def parseDesc : Parse String := do
  match ← getToken [.string] with
  | some t => return t.data.toString
  | none => failGot "Expected string after 'desc'."

def parseAction (fuel : Nat) : Parse Tree.Action := do
  let expr ← parseExpression fuel
  return ⟨.none, .empty, expr⟩

def parseRule (fuel : Nat) : Parse Tree.Rule := do
  let expr ← parseExpression fuel
  let action ← parseAction fuel
  return ⟨expr, action⟩

/-- An action with a condition is read like a rule. -/
def parseCondition (fuel : Nat) (cond : ConditionalType) : Parse Tree.Action := do
  let rule ← parseRule fuel
  return ⟨cond, rule.expr, rule.action.expr⟩

/-- A state that is being read, and whether it has a description. -/
structure Block where
  state : Tree.State
  hasDesc : Bool

def Block.addRule (block : Block) (rule : Tree.Rule) : Block :=
  { block with state := { block.state with rules := block.state.rules ++ [rule] } }

def Block.addAction (block : Block) (action : Tree.Action) : Block :=
  { block with state := { block.state with actions := block.state.actions ++ [action] } }

/-- The `custom_handler` of a state. -/
def stateEntry (fuel : Nat) (entry : String) (block : Block) : Parse (Option Block) := do
  if entry = "desc" then
    if block.hasDesc then fail "State can only contain one description."
    else
      let desc ← parseDesc
      return some ⟨{ block.state with desc := desc }, true⟩
  else if entry = "goal" then
    let rule ← parseRule fuel
    let block := block.addRule rule
    return some { block with state := { block.state with goalRule := block.state.rules.length - 1 } }
  else return none

/-- The entries that all blocks have. -/
def commonEntry (fuel : Nat) (entry : String) (block : Block) : Parse (Option Block) := do
  if entry = "rule" then
    let rule ← parseRule fuel
    return some (block.addRule rule)
  else if entry = "action" then
    let action ← parseAction fuel
    return some (block.addAction action)
  else if entry = "if" then
    let action ← parseCondition fuel .ifTrue
    return some (block.addAction action)
  else if entry = "elseif" ∨ entry = "elif" then
    let action ← parseCondition fuel .elseIf
    return some (block.addAction action)
  else if entry = "else" then
    let action ← parseAction fuel
    return some (block.addAction { action with cond := .orElse })
  else return none

/-- `onError` is the `error_handler`. -/
def parseRuleActionBlock (onError : String → Parse Block) : Nat → Block → Parse Block
  | 0, _ => throw .outOfFuel
  | fuel + 1, block => do
      match ← getToken [.identifier, .symbol] with
      | none => onError "rule/action/if/elseif/else"
      | some t =>
          if t.type = .identifier then
            match ← commonEntry fuel t.data.toString block with
            | some block => parseRuleActionBlock onError fuel block
            | none =>
                match ← stateEntry fuel t.data.toString block with
                | some block => parseRuleActionBlock onError fuel block
                | none =>
                    putBack t
                    onError "rule/action/if/elseif/else"
          else if t.data.toString = "\x7d" then return block
          else if t.data.toString = ";" then parseRuleActionBlock onError fuel block
          else
            putBack t
            onError "rule/action/if/elseif/else"

/-- A main block that is being read. -/
structure MainBlock where
  info : Tree.Info
  hasQuestname : Bool
  hasVersion : Bool

/-- The entries of a main block. -/
def mainEntry (entry : String) (block : MainBlock) : Parse (Option MainBlock) := do
  if entry = "questname" then
    if block.hasQuestname then fail "Main-block can only contain one questname."
    else
      let name ← parseQuestName
      return some { block with info := { block.info with name := name }, hasQuestname := true }
  else if entry = "version" then
    if block.hasVersion then fail "Main-block can only contain one version."
    else
      let version ← parseVersion
      return some { block with info := { block.info with version := version }, hasVersion := true }
  else if entry = "hidden" then
    if block.info.hidden ≠ .notHidden then fail "Main-block can only contain one hidden attribute."
    else return some { block with info := { block.info with hidden := .hidden } }
  else if entry = "hidden_end" then
    if block.info.hidden ≠ .notHidden then fail "Main-block can only contain one hidden attribute."
    else return some { block with info := { block.info with hidden := .hiddenEnd } }
  else if entry = "disabled" then
    if block.info.disabled then fail "Main-block can only contain one disabled attribute."
    else return some { block with info := { block.info with disabled := true } }
  else return none

def mainError : Parse Tree.Info :=
  failGot ("Expected main-block entry (questname/version/hidden/hidden_end/disabled) or closing brace '" ++
    "\x7d" ++ "'.")

def parseMain : Nat → MainBlock → Parse Tree.Info
  | 0, _ => throw .outOfFuel
  | fuel + 1, block => do
      match ← getToken [.identifier, .symbol] with
      | none => mainError
      | some t =>
          if t.type = .identifier then
            match ← mainEntry t.data.toString block with
            | some block => parseMain fuel block
            | none => mainError
          else if t.data.toString = "\x7d" then return block.info
          else mainError

def stateError (name expected : String) : Parse Block :=
  failGot ("Expected state-block entry (" ++ expected ++ "/goal/desc) or closing brace '" ++ "\x7d" ++
    "' in state '" ++ name ++ "'.")

/-- Whether a brace opens a block. -/
def getBrace : Parse Bool := do
  match ← getToken [.symbol] with
  | none => return false
  | some t => return t.data.toString = "\x7b"

def parseStateBlock (fuel : Nat) : Parse (String × Tree.State) := do
  match ← getToken [.identifier] with
  | none => failGot "Expected state-name after 'state'."
  | some t =>
      let name := t.data.toString
      if ← getBrace then
        let block ← parseRuleActionBlock (stateError name) fuel ⟨⟨"", "", [], [], 0⟩, false⟩
        return (name, { block.state with name := name })
      else failGot ("Expected opening brace '" ++ "\x7b" ++ "' after state-name.")

def parseMainBlock (fuel : Nat) : Parse Tree.Info := do
  if ← getBrace then parseMain fuel ⟨⟨"", 0, .notHidden, false⟩, false, false⟩
  else failGot ("Expected opening brace '" ++ "\x7b" ++ "' after 'main'.")

def parseGlobal : Nat → Tree.Quest → Parse Tree.Quest
  | 0, _ => throw .outOfFuel
  | fuel + 1, quest => do
      match ← getToken [.identifier, .endOfFile] with
      | none => failGot "Expected block-identifier (main/state) in global scope."
      | some t =>
          if t.type = .identifier then
            if t.data.toString = "main" then
              if quest.info.isSome then fail "Quest can only contain one main-block."
              else
                let info ← parseMainBlock fuel
                parseGlobal fuel { quest with info := some info }
            else if t.data.toString = "state" then
              let state ← parseStateBlock fuel
              if (quest.states.find state.1).isSome then fail ("State '" ++ state.1 ++ "' already exists")
              else parseGlobal fuel { quest with states := quest.states.insert state.1 state.2 }
            else failGot "Expected block-identifier (main/state) in global scope."
          else if quest.info.isSome then return quest
          else fail "No main-block in quest file."

end Parser

inductive ReadFailure
  | lexer (e : LexerError)
  | parser (e : ParserFailure)
  | outOfFuel
  deriving Repr, DecidableEq

/-- `Quest::Quest`. -/
def readQuest (fuel : Nat) (text : QuestStates.Text) : Except ReadFailure Tree.Quest :=
  match Lexer.lex fuel (.start text) with
  | none => .error .outOfFuel
  | some (.error e) => .error (.lexer e)
  | some (.ok tokens) =>
      match Parser.parseGlobal fuel ⟨none, .empty⟩ (.start tokens) with
      | .ok quest _ => .ok quest
      | .error e _ => .error (.parser e)

end Etheos.EOPlus
