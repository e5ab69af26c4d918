import Etheos.Quest.Saves
import Etheos.Quest.Syntax

/-! The lexer of quest files. It reads a stream of characters, and puts a token for
every line that ends into a queue. -/
namespace Etheos.EOPlus

open Characters (toInt)
open QuestStates (Text ofText toText)

/-- A `util::variant` by the type it has been given. -/
inductive Data
  | int (n : Int)
  | string (s : String)
  | bool (b : Bool)
  deriving Repr, DecidableEq

namespace Data

def toInt : Data → Int
  | int n => n
  | string s => ofText s.toList
  | bool b => if b then 0 else -1

def toString : Data → String
  | int n => String.ofList (toText n)
  | string s => s
  | bool b => if b then "yes" else "no"

end Data

inductive TokenType
  | invalid | identifier | string | integer | float | boolean | operator | symbol | newLine | endOfFile
  deriving Repr, DecidableEq

/-- `newlines` is only used by the parser. -/
structure Token where
  type : TokenType
  data : Data
  newlines : Int
  deriving Repr, DecidableEq

def Token.of (type : TokenType) (data : Data) : Token := ⟨type, data, 0⟩

/-- A token without data. -/
def Token.plain (type : TokenType) : Token := .of type (.int 0)

/-- `UOP2`, an `unsigned char`. -/
def uop2 (a b : Char) : Int := ((a.toNat : Int) - 32 + b.toNat * 4) % 256

/-- `UOP1`. -/
def uop1 (a : Char) : Int := uop2 a '\x00'

section Classes

def ctypeOp (c : Char) : Bool :=
  ['(', ')', '&', '|', '=', '!', '<', '>', '+', '-', '*', '/', '%', '&', '|', '!'].contains c

def ctypeSymbol (c : Char) : Bool := [';', '{', '}', '.', ','].contains c

def ctypeWhitespace (c : Char) : Bool := [' ', '\t', '\n', '\x0b', '\x0c', '\r'].contains c

def ctypeAlpha (c : Char) : Bool := c.isAlpha

def ctypeDigit (c : Char) : Bool := c.isDigit

def ctypeIdentStart (c : Char) : Bool := ctypeAlpha c || c = '_' || c = '$'

def ctypeIdent (c : Char) : Bool := c ≠ '$' && (ctypeIdentStart c || ctypeDigit c)

/-- The last case of `-` is `UOP_ALT`, which is no operator in a file. -/
def checkOp (a b : Char) : Bool :=
  if ['(', ')', '+'].contains a then b = '\x00'
  else if a = '&' then b = '\x00' || b = '&'
  else if a = '|' then b = '\x00' || b = '|'
  else if a = '-' then b = '\x00' || b = '\x02'
  else if ['*', '/', '%'].contains a then b = '\x00'
  else if ['<', '>', '!'].contains a then b = '\x00' || b = '='
  else if a = '=' then b = '='
  else false

end Classes

structure LexerError where
  what : String
  line : Nat
  col : Nat
  deriving Repr, DecidableEq

/-- `is` is what is left of the stream. -/
structure Lexer where
  row : Nat
  col : Nat
  is : Text
  tokenBuffer : List Token
  deriving Repr, DecidableEq

namespace Lexer

def start (text : Text) : Lexer := ⟨1, 0, text, []⟩

/-- `GetChar` has read the character. -/
def got (s : Lexer) (c : Char) : Lexer :=
  if c = '\n' then ⟨s.row + 1, 0, s.is.tail, s.tokenBuffer ++ [.plain .newLine]⟩
  else ⟨s.row, s.col + 1, s.is.tail, s.tokenBuffer⟩

/-- The characters that a loop over `GetCharIf` reads, and the lexer behind them. -/
def getWhile (f : Char → Bool) (s : Lexer) : Text × Lexer :=
  (s.is.takeWhile f, (s.is.takeWhile f).foldl got s)

/-- The body of the loop in `ReadNumber`. -/
def addDigit (number : Int) (c : Char) : Int :=
  let number := if number > (2 ^ 31 - 1) / 10 then 2 ^ 31 - 1 else number
  toInt (toInt (number * 10) + ((c.toNat : Int) - 48))

def readNumber (s : Lexer) : Token × Lexer :=
  match s.getWhile ctypeDigit with
  | ([], s) => (.plain .invalid, s)
  | (c :: digits, s) => (.of .integer (.int (digits.foldl addDigit ((c.toNat : Int) - 48))), s)

/-- The loop of `ReadString` over what is left. -/
def readChars (escape : Bool) (s : Text) : Text → Lexer → Except LexerError (Text × Lexer)
  | [], lexer => .ok (s, lexer)
  | c :: rest, lexer =>
      let lexer := lexer.got c
      if escape then readChars false (s ++ [c]) rest lexer
      else if c = '\\' then readChars true s rest lexer
      else if c = '"' then .ok (s, lexer)
      else if c = '\n' then
        .error ⟨"Unterminated string on previous line", lexer.row, lexer.col⟩
      else readChars false (s ++ [c]) rest lexer

def readString (s : Lexer) : Except LexerError (Token × Lexer) :=
  match s.is with
  | c :: rest =>
      if c = '"' then
        (readChars false [] rest (s.got c)).map fun read =>
          (.of .string (.string (String.ofList read.1)), read.2)
      else .ok (.plain .invalid, s)
  | [] => .ok (.plain .invalid, s)

def readIdentifier (s : Lexer) : Token × Lexer :=
  match s.is with
  | c :: _ =>
      if ctypeIdentStart c then
        let (rest, s) := (s.got c).getWhile ctypeIdent
        let name := lowercase (String.ofList (c :: rest))
        if name = "true" ∨ name = "false" then (.of .boolean (.bool (name = "true")), s)
        else (.of .identifier (.string name), s)
      else (.plain .invalid, s)
  | [] => (.plain .invalid, s)

def readSymbol (s : Lexer) : Token × Lexer :=
  match s.is with
  | c :: _ =>
      if ctypeSymbol c then (.of .symbol (.string (String.ofList [c])), s.got c)
      else (.plain .invalid, s)
  | [] => (.plain .invalid, s)

/-- A second character is read where the two are an operator together. -/
def readOperator (s : Lexer) : Token × Lexer :=
  match s.is with
  | c :: rest =>
      if ctypeOp c then
        let s := s.got c
        let cc := rest.headD '\x00'
        let s := if checkOp c cc ∧ rest ≠ [] ∧ ctypeOp cc then s.got cc else s
        if checkOp c cc then (.of .operator (.int (uop2 c cc)), s)
        else if checkOp c '\x00' then (.of .operator (.int (uop2 c '\x00')), s)
        else (.plain .invalid, s)
      else (.plain .invalid, s)
  | [] => (.plain .invalid, s)

/-- `while (c != '\n') this->GetChar(c);`, where `GetChar` leaves `c` as it is at the
end of the stream. -/
def skipComment : Nat → Char → Lexer → Option Lexer
  | 0, _, _ => none
  | fuel + 1, c, s =>
      if c = '\n' then some s
      else
        match s.is with
        | [] => skipComment fuel c s
        | next :: _ => skipComment fuel next (s.got next)

/-- An invalid token is an error. -/
def checked (read : Token × Lexer) : Except LexerError Token × Lexer :=
  if read.1.type = .invalid then (.error ⟨"Unknown token", read.2.row, read.2.col⟩, read.2)
  else (.ok read.1, read.2)

/-- The token that begins with the character that is next in the stream. -/
def readKind (c : Char) (s : Lexer) : Except LexerError (Token × Lexer) :=
  if ctypeDigit c then .ok s.readNumber
  else if ctypeIdentStart c then .ok s.readIdentifier
  else if ctypeSymbol c then .ok s.readSymbol
  else if ctypeOp c then .ok s.readOperator
  else if c = '"' then s.readString
  else .ok (.plain .invalid, s)

/-- Two slashes begin a comment. -/
def atComment (c : Char) (read : Token × Lexer) : Prop :=
  ctypeOp c ∧ read.1.data.toInt = uop2 '/' '\x00' ∧ read.2.is.head? = some '/'

instance (c : Char) (read : Token × Lexer) : Decidable (atComment c read) :=
  inferInstanceAs (Decidable (_ ∧ _))

/-- Only a comment takes more than one piece of fuel. -/
def readToken : Nat → Lexer → Option (Except LexerError Token × Lexer)
  | 0, _ => none
  | fuel + 1, s =>
      let s := (s.getWhile ctypeWhitespace).2
      match s.tokenBuffer with
      | token :: rest => some (.ok token, { s with tokenBuffer := rest })
      | [] =>
          match s.is with
          | [] => some (.ok (.plain .endOfFile), s)
          | c :: _ =>
              match s.readKind c with
              | .error e => some (.error e, s)
              | .ok read =>
                  if atComment c read then (skipComment fuel c read.2).bind (readToken fuel)
                  else some (checked read)

/-- `Lex`. -/
def lex : Nat → Lexer → Option (Except LexerError (List Token))
  | 0, _ => none
  | fuel + 1, s =>
      match readToken fuel s with
      | none => none
      | some (.error e, _) => some (.error e)
      | some (.ok token, s) =>
          if token.type = .invalid ∨ token.type = .endOfFile then some (.ok [token])
          else (lex fuel s).map (·.map (token :: ·))

end Lexer

end Etheos.EOPlus
