import Etheos.Quest.Progress
import Mathlib.Data.List.Infix

/-! Formats of queries, and the parameters of prepared ones. -/
namespace Etheos.Databases

open QuestStates

inductive Engine where
  | mySQL
  | sqlite
  | sqlServer
  deriving Repr, DecidableEq

inductive Arg where
  | int (n : Int)
  | str (text : Text)
  deriving Repr, DecidableEq

structure Parse where
  finalquery : Text
  parameters : List Text
  removeQuote : Bool
  deriving Repr, DecidableEq

namespace Parse

def start : Parse := ⟨[], [], false⟩

def append (s : Parse) (text : Text) : Parse := { s with finalquery := s.finalquery ++ text }

/-- `$` for SQL Server. There is no `back` of an empty string. -/
def placeholder (s : Parse) (arg : Text) : Option Parse :=
  s.finalquery.getLast?.map fun last =>
    let s := if last = '\'' then { s with finalquery := s.finalquery.dropLast, removeQuote := true } else s
    { s.append ['?'] with parameters := s.parameters ++ [arg] }

end Parse

variable (engine : Engine) (escape : Engine → Text → Text)

/-- One character of the format. `va_arg` has to have an argument of the type. -/
def parseChar (s : Parse) (c : Char) (args : List Arg) : Option (Parse × List Arg) :=
  if c = '#' then
    match args with
    | .int n :: args => some (s.append (toText n), args)
    | _ => none
  else if c = '@' then
    match args with
    | .str text :: args => some (s.append (if engine = .sqlServer then text.filter (· != '`') else text), args)
    | _ => none
  else if c = '$' then
    match args with
    | .str text :: args =>
        if engine = .sqlServer then (s.placeholder text).map (·, args)
        else some (s.append (escape engine text), args)
    | _ => none
  else if (c = '`' ∧ engine = .sqlServer) ∨ (c = '\'' ∧ s.removeQuote) then
    some ({ s with removeQuote := false }, args)
  else some (s.append [c], args)

def parseQueryArgs : Text → Parse → List Arg → Option (Text × List Text)
  | [], s, _ => some (s.finalquery, s.parameters)
  | c :: rest, s, args => (parseChar engine escape s c args).bind fun r => parseQueryArgs rest r.1 r.2

/-- No character of this kind is written as it is. -/
def Plain (c : Char) : Prop := c ≠ '#' ∧ c ≠ '@' ∧ c ≠ '$' ∧ c ≠ '`'

instance (c : Char) : Decidable (Plain c) := inferInstanceAs (Decidable (_ ∧ _))

/-- The pieces of a format, with their arguments. -/
inductive Piece where
  | quoted (arg : Text)
  | alone (arg : Text)
  | number (n : Int)
  | text (arg : Text)
  | backtick
  | char (c : { c : Char // Plain c })

namespace Piece

def format : Piece → Text
  | .quoted _ => ['\'', '$', '\'']
  | .alone _ => ['$']
  | .number _ => ['#']
  | .text _ => ['@']
  | .backtick => ['`']
  | .char c => [c.1]

def args : Piece → List Arg
  | .quoted arg => [.str arg]
  | .alone arg => [.str arg]
  | .number n => [.int n]
  | .text arg => [.str arg]
  | .backtick => []
  | .char _ => []

/-- What a piece is in a query of SQL Server. -/
def query : Piece → Text
  | .quoted _ => ['?']
  | .alone _ => ['?']
  | .number n => toText n
  | .text arg => arg.filter (· != '`')
  | .backtick => []
  | .char c => [c.1]

def parameters : Piece → List Text
  | .quoted arg => [arg]
  | .alone arg => [arg]
  | _ => []

end Piece

/-- The pieces of a format from the left. A `$` that stands between two quotes is one piece with them. -/
def pieces : Text → List Arg → Option (List Piece)
  | [], [] => some []
  | '\'' :: '$' :: '\'' :: rest, .str arg :: args => (pieces rest args).map (.quoted arg :: ·)
  | '$' :: rest, .str arg :: args => (pieces rest args).map (.alone arg :: ·)
  | '#' :: rest, .int n :: args => (pieces rest args).map (.number n :: ·)
  | '@' :: rest, .str arg :: args => (pieces rest args).map (.text arg :: ·)
  | '`' :: rest, args => (pieces rest args).map (.backtick :: ·)
  | c :: rest, args => if h : Plain c then (pieces rest args).map (.char ⟨c, h⟩ :: ·) else none
  | [], _ :: _ => none

theorem of_pieces {format : Text} {args : List Arg} {ps : List Piece} (h : pieces format args = some ps) :
    ps.flatMap Piece.format = format ∧ ps.flatMap Piece.args = args := by
  fun_induction pieces format args generalizing ps with
  | case1 => simp_all
  | case2 rest arg args ih =>
      obtain ⟨qs, hRest, rfl⟩ := Option.map_eq_some_iff.mp h
      simp [Piece.format, Piece.args, ih hRest]
  | case3 rest arg args ih =>
      obtain ⟨qs, hRest, rfl⟩ := Option.map_eq_some_iff.mp h
      simp [Piece.format, Piece.args, ih hRest]
  | case4 rest n args ih =>
      obtain ⟨qs, hRest, rfl⟩ := Option.map_eq_some_iff.mp h
      simp [Piece.format, Piece.args, ih hRest]
  | case5 rest arg args ih =>
      obtain ⟨qs, hRest, rfl⟩ := Option.map_eq_some_iff.mp h
      simp [Piece.format, Piece.args, ih hRest]
  | case6 args rest ih =>
      obtain ⟨qs, hRest, rfl⟩ := Option.map_eq_some_iff.mp h
      simp [Piece.format, Piece.args, ih hRest]
  | case7 =>
      rename_i ih
      obtain ⟨qs, hRest, rfl⟩ := Option.map_eq_some_iff.mp h
      simp [Piece.format, Piece.args, ih hRest]
  | case8 => cases h
  | case9 => cases h

section Run

/-- The query that is expected, with its parameters. -/
def expected (ps : List Piece) : Text × List Text := (ps.flatMap Piece.query, ps.flatMap Piece.parameters)

/-- Behind `out`, no placeholder that stands alone comes first or behind a quote of the query. -/
def Clear : Text → List Piece → Prop
  | _, [] => True
  | out, .alone _ :: rest => (∃ last ∈ out.getLast?, last ≠ '\'') ∧ Clear (out ++ ['?']) rest
  | out, p :: rest => Clear (out ++ p.query) rest

variable {engine escape} {s : Parse}

theorem append_stays {done rest : Text} (hFinal : s.finalquery = done ++ '?' :: rest) (text : Text) :
    ∃ more, (s.append text).finalquery = done ++ '?' :: more :=
  ⟨rest ++ text, by simp [Parse.append, hFinal]⟩

/-- Only a quote is taken away again. -/
theorem placeholder_stays {done rest arg : Text} {next : Parse} (hFinal : s.finalquery = done ++ '?' :: rest)
    (h : s.placeholder arg = some next) : ∃ more, next.finalquery = done ++ '?' :: more := by
  obtain ⟨last, hLast, rfl⟩ := Option.map_eq_some_iff.mp h
  dsimp only
  split
  case isTrue hQuote =>
    have hRest : rest ≠ [] := by
      rintro rfl
      rw [hFinal, List.getLast?_concat, hQuote] at hLast
      exact absurd hLast (by decide)
    have hDropped : s.finalquery.dropLast = done ++ '?' :: rest.dropLast := by
      obtain ⟨c, more, rfl⟩ := List.exists_cons_of_ne_nil hRest
      simp [hFinal]
    exact append_stays hDropped ['?']
  case isFalse => exact append_stays hFinal ['?']

theorem parseChar_stays {done rest : Text} {c : Char} {args : List Arg} {r : Parse × List Arg}
    (hFinal : s.finalquery = done ++ '?' :: rest) (h : parseChar engine escape s c args = some r) :
    ∃ more, r.1.finalquery = done ++ '?' :: more := by
  unfold parseChar at h
  split at h
  · split at h
    · cases h
      exact append_stays hFinal _
    · cases h
  · split at h
    · split at h
      · cases h
        exact append_stays hFinal _
      · cases h
    · split at h
      · split at h
        · split at h
          · obtain ⟨next, hNext, rfl⟩ := Option.map_eq_some_iff.mp h
            exact placeholder_stays hFinal hNext
          · cases h
            exact append_stays hFinal _
        · cases h
      · split at h
        · cases h
          exact ⟨rest, hFinal⟩
        · cases h
          exact append_stays hFinal _

theorem parseQueryArgs_stays {done rest format : Text} {args : List Arg} {r : Text × List Text}
    (hFinal : s.finalquery = done ++ '?' :: rest) (h : parseQueryArgs engine escape format s args = some r) :
    ∃ more, r.1 = done ++ '?' :: more := by
  induction format generalizing s rest args with
  | nil =>
      cases h
      exact ⟨rest, hFinal⟩
  | cons c format ih =>
      obtain ⟨next, hChar, hRest⟩ := Option.bind_eq_some_iff.mp h
      obtain ⟨more, hMore⟩ := parseChar_stays hFinal hChar
      exact ih hMore hRest

/-- What a piece makes of a query. -/
def Parse.add (s : Parse) (p : Piece) : Parse := ⟨s.finalquery ++ p.query, s.parameters ++ p.parameters, false⟩

theorem Parse.placeholder_of_ne {last : Char} {arg : Text} (hLast : s.finalquery.getLast? = some last)
    (h : last ≠ '\'') : s.placeholder arg =
      some ⟨s.finalquery ++ ['?'], s.parameters ++ [arg], s.removeQuote⟩ := by
  simp [placeholder, append, hLast, h]

theorem Parse.placeholder_quote {done arg : Text} (hFinal : s.finalquery = done ++ ['\'']) :
    s.placeholder arg = some ⟨done ++ ['?'], s.parameters ++ [arg], true⟩ := by
  simp [placeholder, append, hFinal]

/-- A piece that is not a placeholder on its own. -/
theorem parse_piece {p : Piece} (hFlag : s.removeQuote = false) (h : ∀ arg, p ≠ .alone arg) (rest : Text)
    (args : List Arg) : parseQueryArgs .sqlServer escape (p.format ++ rest) s (p.args ++ args) =
      parseQueryArgs .sqlServer escape rest (s.add p) args := by
  obtain ⟨finalquery, parameters, removeQuote⟩ := s
  subst hFlag
  cases p with
  | quoted arg =>
      simp [Piece.format, Piece.args, parseQueryArgs, parseChar, Parse.append, Parse.add, Parse.placeholder,
        Piece.query, Piece.parameters]
  | alone arg => exact absurd rfl (h arg)
  | number n =>
      simp [Piece.format, Piece.args, parseQueryArgs, parseChar, Parse.append, Parse.add, Piece.query, Piece.parameters]
  | text arg =>
      simp [Piece.format, Piece.args, parseQueryArgs, parseChar, Parse.append, Parse.add, Piece.query, Piece.parameters]
  | backtick =>
      simp [Piece.format, Piece.args, parseQueryArgs, parseChar, Parse.add, Piece.query, Piece.parameters]
  | char c =>
      obtain ⟨c, hNumber, hText, hPlaceholder, hBacktick⟩ := c
      simp [Piece.format, Piece.args, parseQueryArgs, parseChar, Parse.append, Parse.add, Piece.query, Piece.parameters,
        hNumber, hText, hPlaceholder, hBacktick]

theorem clear_piece {p : Piece} {out : Text} {rest : List Piece} (h : ∀ arg, p ≠ .alone arg) :
    Clear out (p :: rest) ↔ Clear (out ++ p.query) rest := by
  cases p with
  | alone arg => exact absurd rfl (h arg)
  | _ => rfl

theorem parse_alone (s : Parse) (arg rest : Text) (args : List Arg) :
    parseQueryArgs .sqlServer escape ('$' :: rest) s (.str arg :: args) =
      (s.placeholder arg).bind fun next => parseQueryArgs .sqlServer escape rest next args := by
  simp [parseQueryArgs, parseChar, Option.bind_map]

/-- The quote that is taken away is missed in the query. -/
theorem parse_quote {done arg rest more : Text} {args : List Arg} {parameters : List Text}
    (hFinal : s.finalquery = done ++ ['\'']) :
    parseQueryArgs .sqlServer escape ('$' :: rest) s (.str arg :: args) ≠
      some (s.finalquery ++ more, parameters) := by
  rw [parse_alone, Parse.placeholder_quote hFinal, Option.bind_some]
  intro hResult
  have hPlaceholder : (⟨done ++ ['?'], s.parameters ++ [arg], true⟩ : Parse).finalquery = done ++ '?' :: [] := rfl
  obtain ⟨later, hLater⟩ := parseQueryArgs_stays hPlaceholder hResult
  simp [hFinal] at hLater

theorem parse_pieces_iff {ps : List Piece} (hFlag : s.removeQuote = false) :
    parseQueryArgs .sqlServer escape (ps.flatMap Piece.format) s (ps.flatMap Piece.args) =
        some (s.finalquery ++ (expected ps).1, s.parameters ++ (expected ps).2) ↔
      Clear s.finalquery ps := by
  induction ps generalizing s with
  | nil => simp [parseQueryArgs, expected, Clear]
  | cons p ps ih =>
      have hExpected : ∀ out parameters, (out ++ (expected (p :: ps)).1, parameters ++ (expected (p :: ps)).2) =
          ((out ++ p.query) ++ (expected ps).1, (parameters ++ p.parameters) ++ (expected ps).2) := by
        simp [expected]
      rw [List.flatMap_cons, List.flatMap_cons, hExpected]
      by_cases hAlone : ∃ arg, p = .alone arg
      · obtain ⟨arg, rfl⟩ := hAlone
        rw [Clear]
        cases hLast : s.finalquery.getLast? with
        | none =>
            have hNone : s.placeholder arg = none := by simp [Parse.placeholder, hLast]
            simp [Piece.format, Piece.args, parse_alone, hNone]
        | some last =>
            by_cases hQuote : last = '\''
            · subst hQuote
              obtain ⟨done, hDone⟩ := List.getLast?_eq_some_iff.mp hLast
              rw [List.append_assoc]
              simp [Piece.format, Piece.args, parse_quote hDone]
            · have hNext : s.placeholder arg = some ⟨s.finalquery ++ ['?'], s.parameters ++ [arg], s.removeQuote⟩ :=
                Parse.placeholder_of_ne hLast hQuote
              have hRest := ih (s := ⟨s.finalquery ++ ['?'], s.parameters ++ [arg], s.removeQuote⟩) hFlag
              have hClear : (∃ last' ∈ some last, last' ≠ '\'') ↔ True := by simp [hQuote]
              rw [hClear, true_and, ← hRest]
              simp only [Piece.format, Piece.args, List.cons_append, List.nil_append, parse_alone, hNext,
                Option.bind_some, Piece.query, Piece.parameters]
      · have hOther : ∀ arg, p ≠ .alone arg := fun arg h => hAlone ⟨arg, h⟩
        rw [parse_piece hFlag hOther, clear_piece hOther]
        exact ih rfl

theorem parseQueryArgs_iff {format : Text} {args : List Arg} {ps : List Piece} (h : pieces format args = some ps) :
    parseQueryArgs .sqlServer escape format .start args = some (expected ps) ↔ Clear [] ps := by
  obtain ⟨rfl, rfl⟩ := of_pieces h
  have hStart : parseQueryArgs .sqlServer escape _ .start _ = some (_, _) ↔ Clear Parse.start.finalquery ps :=
    parse_pieces_iff rfl
  simpa [Parse.start] using hStart

/-- `n='$'` -/
theorem parseQueryArgs_quoted : parseQueryArgs .sqlServer (fun _ text => text) ['n', '=', '\'', '$', '\''] .start
    [.str ['v']] = some (['n', '=', '?'], [['v']]) :=
  have hPieces : pieces ['n', '=', '\'', '$', '\''] [.str ['v']] =
      some [.char ⟨'n', by decide⟩, .char ⟨'=', by decide⟩, .quoted ['v']] := rfl
  (parseQueryArgs_iff hPieces).mpr trivial

theorem plain_quote : Plain '\'' := by decide

theorem plain_x : Plain 'x' := by decide

/-- A literal text, and a placeholder behind a backtick. -/
def literal : List Piece :=
  [.char ⟨'\'', plain_quote⟩, .char ⟨'x', plain_x⟩, .char ⟨'\'', plain_quote⟩, .backtick, .alone ['v'], .backtick]

theorem literal_counterexample : ¬∀ (format : Text) (args : List Arg) (ps : List Piece), format.head? ≠ some '$' →
    pieces format args = some ps →
      parseQueryArgs .sqlServer (fun _ text => text) format .start args = some (expected ps) := by
  intro h
  have hResult := h ['\'', 'x', '\'', '`', '$', '`'] [.str ['v']] literal (by decide) rfl
  revert hResult
  decide

end Run

end Etheos.Databases
