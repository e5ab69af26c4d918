import Etheos.Database.QueryArgs
import Etheos.General.Quoted

/-! Texts in queries of MySQL and SQLite. They are masked, and stay within the literals of the format. -/
namespace Etheos.Databases

open General QuestStates

/-- What a character stands for behind a backslash. -/
def unescape (c : Char) : Text :=
  match c with
  | '0' => [Char.ofNat 0]
  | 'b' => [Char.ofNat 8]
  | 't' => ['\t']
  | 'n' => ['\n']
  | 'r' => ['\r']
  | 'Z' => [Char.ofNat 26]
  | '%' => ['\\', '%']
  | '_' => ['\\', '_']
  | c => [c]

/-- The literals of an engine. -/
def quoting : Engine → Quoting Char
  | .mySQL => ⟨'\'', some '\\', unescape⟩
  | .sqlite => ⟨'\'', none, fun c => [c]⟩
  | .sqlServer => ⟨'\'', none, fun c => [c]⟩

/-- `mysql_real_escape_string`, and the `%q` of `sqlite3_mprintf`, for a character. -/
def mask (engine : Engine) (c : Char) : Text :=
  match engine with
  | .mySQL =>
      if c = Char.ofNat 0 then ['\\', '0']
      else if c = '\n' then ['\\', 'n']
      else if c = '\r' then ['\\', 'r']
      else if c = Char.ofNat 26 then ['\\', 'Z']
      else if c = '\\' ∨ c = '\'' ∨ c = '"' then ['\\', c]
      else [c]
  | .sqlite => if c = '\'' then ['\'', '\''] else [c]
  | .sqlServer => [c]

/-- The libraries mask a text as they are documented to do. -/
def Masks (engine : Engine) (escape : Engine → Text → Text) : Prop :=
  ∀ text, escape engine text = text.flatMap (mask engine)

def maskText (engine : Engine) (text : Text) : Text := text.flatMap (mask engine)

/-- A character of a format is read like one of a query, and an argument as what it is meant to be: a `$` is the
value of a literal, or a part of it. -/
def readChar (engine : Engine) (r : Reading Char) (c : Char) (args : List Arg) : Option (Reading Char × List Arg) :=
  if c = '#' then
    match args with
    | .int n :: args => some ((quoting engine).reads r (toText n), args)
    | _ => none
  else if c = '@' then
    match args with
    | .str text :: args => some ((quoting engine).reads r text, args)
    | _ => none
  else if c = '$' then
    match args with
    | .str text :: args => if r.mode = .literal then some (r.extend text, args) else none
    | _ => none
  else some ((quoting engine).read r c, args)

def readFormat (engine : Engine) : Text → List Arg → Reading Char → Option (Reading Char)
  | [], _, r => some r
  | c :: rest, args, r => (readChar engine r c args).bind fun next => readFormat engine rest next.2 next.1

/-- The arguments are the same, but for the texts of the `$`. -/
inductive Alike : Text → List Arg → List Arg → Prop
  | nil (args args' : List Arg) : Alike [] args args'
  | value (text text' : Text) {rest : Text} {args args' : List Arg} (h : Alike rest args args') :
      Alike ('$' :: rest) (.str text :: args) (.str text' :: args')
  | arg {c : Char} (hArg : c = '#' ∨ c = '@') (arg : Arg) {rest : Text} {args args' : List Arg}
      (h : Alike rest args args') : Alike (c :: rest) (arg :: args) (arg :: args')
  | char {c : Char} (hChar : c ≠ '#' ∧ c ≠ '@' ∧ c ≠ '$') {rest : Text} {args args' : List Arg}
      (h : Alike rest args args') : Alike (c :: rest) args args'

section Literals

variable {engine : Engine} {escape : Engine → Text → Text} {r r' : Reading Char}

/-- What is masked is read back. -/
theorem reads_mask (hEngine : engine ≠ .sqlServer) (hMode : r.mode = .literal) (c : Char) :
    (quoting engine).reads r (mask engine c) = r.extend [c] := by
  cases engine with
  | mySQL =>
      have hEscaped : ∀ d, (quoting .mySQL).reads r ['\\', d] = r.extend (unescape d) := fun d =>
        Quoting.read_escaped (q := quoting .mySQL) rfl (by decide) hMode
      unfold mask
      dsimp only
      split
      next h => exact (hEscaped '0').trans (by rw [h]; rfl)
      next =>
        split
        next h => exact (hEscaped 'n').trans (by rw [h]; rfl)
        next =>
          split
          next h => exact (hEscaped 'r').trans (by rw [h]; rfl)
          next =>
            split
            next h => exact (hEscaped 'Z').trans (by rw [h]; rfl)
            next =>
              split
              next h => exact (hEscaped c).trans (by obtain rfl | rfl | rfl := h <;> rfl)
              next h =>
                obtain ⟨hEscape, hRest⟩ := not_or.mp h
                refine Quoting.read_own (q := quoting .mySQL) hMode (not_or.mp hRest).1 fun hSame => hEscape ?_
                exact (Option.some.inj hSame).symm
  | sqlite =>
      unfold mask
      dsimp only
      split
      next h =>
        subst h
        exact Quoting.read_doubled (q := quoting .sqlite) hMode
      next h => exact Quoting.read_own (q := quoting .sqlite) hMode h (by simp [quoting])
  | sqlServer => exact absurd rfl hEngine

theorem reads_escape (hEngine : engine ≠ .sqlServer) (hEscape : Masks engine escape) (hMode : r.mode = .literal)
    (text : Text) : (quoting engine).reads r (escape engine text) = r.extend text := by
  rw [hEscape text]
  have hRead : (quoting engine).reads r (text.flatMap (mask engine)) = r.extend (text.map id) :=
    Quoting.reads_flatMap (fun r c hMode => reads_mask hEngine hMode c) hMode text
  rwa [List.map_id] at hRead

theorem readChar_char {c : Char} (h : c ≠ '#' ∧ c ≠ '@' ∧ c ≠ '$') (args : List Arg) :
    readChar engine r c args = some ((quoting engine).read r c, args) := by
  simp [readChar, h]

theorem parseChar_reads (hEngine : engine ≠ .sqlServer) (hEscape : Masks engine escape) {s : Parse}
    (hFlag : s.removeQuote = false) {c : Char} {args : List Arg} {next : Reading Char × List Arg}
    (hRead : readChar engine r c args = some next) :
    ∃ text, parseChar engine escape s c args = some (s.append text, next.2) ∧
      (quoting engine).reads r text = next.1 := by
  by_cases hNumber : c = '#'
  · subst hNumber
    cases args with
    | nil => cases hRead
    | cons arg args =>
        cases arg with
        | int n =>
            obtain rfl := Option.some.inj hRead
            exact ⟨toText n, rfl, rfl⟩
        | str text => cases hRead
  · by_cases hText : c = '@'
    · subst hText
      cases args with
      | nil => cases hRead
      | cons arg args =>
          cases arg with
          | int n => cases hRead
          | str text =>
              obtain rfl := Option.some.inj hRead
              exact ⟨text, by simp [parseChar, hEngine], rfl⟩
    · by_cases hValue : c = '$'
      · subst hValue
        cases args with
        | nil => cases hRead
        | cons arg args =>
            cases arg with
            | int n => cases hRead
            | str text =>
                have hMode : r.mode = .literal := by
                  by_contra hOutside
                  simp [readChar, hOutside] at hRead
                have hNext : (r.extend text, args) = next := by simpa [readChar, hMode] using hRead
                subst hNext
                exact ⟨escape engine text, by simp [parseChar, hEngine], reads_escape hEngine hEscape hMode text⟩
      · rw [readChar_char ⟨hNumber, hText, hValue⟩] at hRead
        obtain rfl := Option.some.inj hRead
        exact ⟨[c], by simp [parseChar, hNumber, hText, hValue, hEngine, hFlag], rfl⟩

/-- The query is read as its format is. -/
theorem parse_reads (hEngine : engine ≠ .sqlServer) (hEscape : Masks engine escape) {format : Text} {args : List Arg}
    {s : Parse} (hFlag : s.removeQuote = false) (hRead : readFormat engine format args r = some r') :
    ∃ query, parseQueryArgs engine escape format s args = some (s.finalquery ++ query, s.parameters) ∧
      (quoting engine).reads r query = r' := by
  induction format generalizing s r args with
  | nil => exact ⟨[], by simp [parseQueryArgs], Option.some.inj hRead⟩
  | cons c rest ih =>
      obtain ⟨next, hChar, hRest⟩ := Option.bind_eq_some_iff.mp hRead
      obtain ⟨text, hParse, hText⟩ := parseChar_reads hEngine hEscape hFlag hChar
      obtain ⟨query, hQuery, hReads⟩ := ih (s := s.append text) hFlag hRest
      refine ⟨text ++ query, ?_, by rw [Quoting.reads_append, hText, hReads]⟩
      rw [parseQueryArgs, hParse, Option.bind_some, hQuery]
      simp [Parse.append]

/-- Texts that stand for a `$` do not change how the format is read. -/
theorem shape_readFormat {format : Text} {args args' : List Arg} (hAlike : Alike format args args') {s : Reading Char}
    (hShape : r.shape = s.shape) (hRead : readFormat engine format args r = some r') :
    ∃ s', readFormat engine format args' s = some s' ∧ s'.shape = r'.shape := by
  induction hAlike generalizing r s with
  | nil args args' =>
      obtain rfl := Option.some.inj hRead
      exact ⟨s, rfl, hShape.symm⟩
  | value text text' hRest ih =>
      obtain ⟨next, hChar, hMore⟩ := Option.bind_eq_some_iff.mp hRead
      have hMode : r.mode = .literal := by
        by_contra hOutside
        simp [readChar, hOutside] at hChar
      obtain rfl : (r.extend text, _) = next := by simpa [readChar, hMode] using hChar
      obtain ⟨s', hRead', hEnd⟩ := ih (r := r.extend text) (s := s.extend text') hShape hMore
      have hMode' : s.mode = .literal := (congrArg Prod.snd hShape).symm.trans hMode
      exact ⟨s', by simpa [readFormat, readChar, hMode'] using hRead', hEnd⟩
  | @arg c hArg arg rest args args' hRest ih =>
      obtain ⟨next, hChar, hMore⟩ := Option.bind_eq_some_iff.mp hRead
      have hFed : ∃ text, (∀ (r : Reading Char) (more : List Arg),
          readChar engine r c (arg :: more) = some ((quoting engine).reads r text, more)) := by
        obtain rfl | rfl := hArg
        · cases arg with
          | int n => exact ⟨toText n, fun _ _ => rfl⟩
          | str text => cases hChar
        · cases arg with
          | int n => cases hChar
          | str text => exact ⟨text, fun _ _ => rfl⟩
      obtain ⟨text, hText⟩ := hFed
      rw [hText] at hChar
      obtain rfl := Option.some.inj hChar
      obtain ⟨s', hRead', hEnd⟩ := ih (Quoting.shape_reads hShape text) hMore
      exact ⟨s', by rw [readFormat, hText]; exact hRead', hEnd⟩
  | char hChar hRest ih =>
      rw [readFormat, readChar_char hChar] at hRead ⊢
      exact ih (Quoting.shape_read hShape _) hRead

/-- Whatever texts are given for the `$`, they are in the query as values of literals, and the rest of the query is
what it is with other texts. -/
theorem texts_stay_literals (hEngine : engine ≠ .sqlServer) (hEscape : Masks engine escape) {format : Text}
    {args args' : List Arg} (hRead : readFormat engine format args .start = some r)
    (hAlike : Alike format args args') :
    ∃ query query' r', parseQueryArgs engine escape format .start args = some (query, []) ∧
      (quoting engine).reads .start query = r ∧
      parseQueryArgs engine escape format .start args' = some (query', []) ∧
      readFormat engine format args' .start = some r' ∧ (quoting engine).reads .start query' = r' ∧
      r'.shape = r.shape := by
  obtain ⟨r', hRead', hShape⟩ := shape_readFormat hAlike rfl hRead
  obtain ⟨query, hQuery, hReads⟩ := parse_reads (s := .start) hEngine hEscape rfl hRead
  obtain ⟨query', hQuery', hReads'⟩ := parse_reads (s := .start) hEngine hEscape rfl hRead'
  exact ⟨query, query', r', hQuery, hReads, hQuery', hRead', hReads', hShape⟩

/-- Two names for `WHERE n='$'`, of which one has the quotes to end the literal. -/
theorem texts_stay_literals_hostile :
    ∃ query query' r', parseQueryArgs .mySQL maskText "n='$'".toList .start
        [.str ['x']] = some (query, []) ∧
      (quoting .mySQL).reads .start query = ⟨[.plain 'n', .plain '='], .closing, ['x']⟩ ∧
      parseQueryArgs .mySQL maskText "n='$'".toList .start
        [.str "\\' OR 1 --".toList] = some (query', []) ∧
      readFormat .mySQL "n='$'".toList [.str "\\' OR 1 --".toList] .start = some r' ∧
      (quoting .mySQL).reads .start query' = r' ∧ r'.shape = ([some 'n', some '='], .closing) :=
  texts_stay_literals (by decide) (fun _ => rfl) rfl
    (.char (by decide) (.char (by decide) (.char (by decide) (.value _ _ (.char (by decide) (.nil _ _))))))

end Literals

end Etheos.Databases
