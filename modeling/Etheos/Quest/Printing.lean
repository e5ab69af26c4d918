import Etheos.Quest.LexerRuns
import Etheos.Quest.Parser

/-! The quest language in print: how a tree is written as a list of words, how the
words are spelled, and that the lexer finds them again. -/
namespace Etheos.EOPlus

open QuestStates (Text toText)

/-- What is written for one token. -/
inductive Lexeme
  | word (w : String)
  | number (n : Nat)
  | quoted (s : String)
  | sign (c : Char)
  deriving Repr, DecidableEq

def escaped (text : Text) : Text :=
  text.flatMap fun c => if c = '"' ∨ c = '\\' ∨ c = '\n' then ['\\', c] else [c]

/-- An identifier in lower case that is no truth value. -/
structure IsName (s : String) : Prop where
  start : s.toList.head?.any ctypeIdentStart
  rest : s.toList.tail.all ctypeIdent
  lower : lowercase s = s
  noValue : s ≠ "true" ∧ s ≠ "false"

instance (s : String) : Decidable (IsName s) :=
  decidable_of_iff (s.toList.head?.any ctypeIdentStart ∧ s.toList.tail.all ctypeIdent ∧ lowercase s = s ∧
      s ≠ "true" ∧ s ≠ "false")
    ⟨fun h => ⟨h.1, h.2.1, h.2.2.1, h.2.2.2⟩, fun h => ⟨h.start, h.rest, h.lower, h.noValue⟩⟩

namespace Lexeme

def text : Lexeme → Text
  | word w => w.toList
  | number n => toText n
  | quoted s => '"' :: (escaped s.toList ++ ['"'])
  | sign c => [c]

def token : Lexeme → TokenType × Data
  | word w => (.identifier, .string w)
  | number n => (.integer, .int n)
  | quoted s => (.string, .string s)
  | sign c =>
      if c = '(' ∨ c = ')' then (.operator, .int (uop1 c)) else (.symbol, .string (String.ofList [c]))

/-- The lexer reads it as one token. -/
def Readable : Lexeme → Prop
  | word w => IsName w
  | number n => n < 2 ^ 31
  | quoted _ => True
  | sign c => c = '(' ∨ c = ')' ∨ c = ',' ∨ c = '.' ∨ c = '{' ∨ c = '}'

/-- What comes behind it is not taken for a part of it. -/
def Apart : Lexeme → Text → Prop
  | word _, text => ∀ c ∈ text.head?, ctypeIdent c = false
  | number _, text => ∀ c ∈ text.head?, ctypeDigit c = false
  | quoted _, _ | sign _, _ => True

end Lexeme

/-- The words with any white space between them. -/
inductive Spells : List Lexeme → Text → Prop where
  | nil {gap : Text} (hGap : ∀ c ∈ gap, ctypeWhitespace c) : Spells [] gap
  | cons {gap text : Text} {w : Lexeme} {words : List Lexeme} (hGap : ∀ c ∈ gap, ctypeWhitespace c)
      (hApart : w.Apart text) (hText : Spells words text) : Spells (w :: words) (gap ++ (w.text ++ text))

/-- A blank before each word. -/
def spaced (words : List Lexeme) : Text := words.flatMap fun w => ' ' :: w.text

theorem spells_spaced (words : List Lexeme) : Spells words (spaced words) := by
  have hBlank : ∀ c ∈ [' '], ctypeWhitespace c := List.forall_mem_singleton.mpr rfl
  induction words with
  | nil => exact .nil nofun
  | cons w words ih =>
      refine .cons hBlank ?_ ih
      have hNext : ∀ c ∈ (spaced words).head?, c = ' ' := by
        cases words with
        | nil => exact nofun
        | cons next words =>
            rintro c ⟨⟩
            rfl
      cases w with
      | word w =>
          intro c hc
          rw [hNext c hc]
          decide
      | number n =>
          intro c hc
          rw [hNext c hc]
          decide
      | quoted w => exact trivial
      | sign c => exact trivial

/-- Which of two ways to write the same thing is taken. -/
structure Style where
  goto : Tree.Expression → Bool
  elif : Tree.Action → Bool

def Data.print : Data → Lexeme
  | .int n => .number n.toNat
  | .string s => .quoted s
  | .bool b => .word (if b then "true" else "false")

namespace Tree

def printArgs : List Data → List Lexeme
  | [] => [.sign ')']
  | [arg] => [arg.print, .sign ')']
  | arg :: next :: args => arg.print :: .sign ',' :: printArgs (next :: args)

/-- The state that a `goto` goes to. -/
def Expression.target (expr : Expression) : Option String :=
  match expr.args with
  | [.string name] => if expr.function = "setstate" ∧ IsName name then some name else none
  | _ => none

def Expression.call (expr : Expression) : List Lexeme := .word expr.function :: .sign '(' :: printArgs expr.args

variable (style : Style)

def Expression.print (expr : Expression) : List Lexeme :=
  match expr.target with
  | some name => if style.goto expr then [.word "goto", .word name] else expr.call
  | none => expr.call

def Action.print (action : Action) : List Lexeme :=
  match action.cond with
  | .none => .word "action" :: action.expr.print style
  | .ifTrue => .word "if" :: (action.condExpr.print style ++ action.expr.print style)
  | .elseIf =>
      .word (if style.elif action then "elif" else "elseif") ::
        (action.condExpr.print style ++ action.expr.print style)
  | .orElse => .word "else" :: action.expr.print style

def Rule.print (rule : Rule) : List Lexeme := rule.expr.print style ++ rule.action.expr.print style

/-- The rules from the one with the number `n`. -/
def printRules (goalRule : Nat) : Nat → List Rule → List Lexeme
  | _, [] => []
  | n, rule :: rules =>
      .word (if n = goalRule then "goal" else "rule") :: (rule.print style ++ printRules goalRule (n + 1) rules)

/-- What is written behind `state`. -/
def State.block (state : State) : List Lexeme :=
  [.word state.name, .sign '{', .word "desc", .quoted state.desc] ++
    (printRules style state.goalRule 0 state.rules ++ (state.actions.flatMap (Action.print style) ++ [.sign '}']))

def State.print (state : State) : List Lexeme := .word "state" :: state.block style

def HiddenType.print : HiddenType → List Lexeme
  | notHidden => []
  | hidden => [.word "hidden"]
  | hiddenEnd => [.word "hidden_end"]

/-- What is written behind `main`. -/
def Info.block (info : Info) : List Lexeme :=
  [.sign '{', .word "questname", .quoted info.name, .word "version",
    .number (info.version >>> 16).toNat, .sign '.', .number (info.version &&& 0xFFFF).toNat] ++
    (info.hidden.print ++ ((if info.disabled then [.word "disabled"] else []) ++ [.sign '}']))

def Info.print (info : Info) : List Lexeme := .word "main" :: info.block

def printStates (entries : List (String × State)) : List Lexeme :=
  entries.flatMap fun entry => entry.2.print style

def Quest.print (quest : Quest) : List Lexeme :=
  quest.info.elim [] Info.print ++ printStates style quest.states.entries

end Tree

namespace Lexer

/-- The tokens that are no ends of lines. -/
def stream (tokens : List Token) : List (TokenType × Data) :=
  (tokens.filter (·.type ≠ .newLine)).map fun t => (t.type, t.data)

/-- The token at the end of a file. -/
def fileEnd : TokenType × Data := (.endOfFile, .int 0)

/-- With enough fuel the lexer finds these tokens, apart from the ends of lines. -/
def LexesTo (s : Lexer) (found : List (TokenType × Data)) : Prop :=
  ∃ tokens, stream tokens = found ∧ ∃ least, ∀ fuel, least ≤ fuel → lex fuel s = some (.ok tokens)

section Words

variable {s s' : Lexer} {token : Token} {found : List (TokenType × Data)}

theorem lex_cons {fuel : Nat} {tokens : List Token} (h : readToken fuel s = some (.ok token, s'))
    (hType : token.type ≠ .invalid ∧ token.type ≠ .endOfFile) (hRest : lex fuel s' = some (.ok tokens)) :
    lex (fuel + 1) s = some (.ok (token :: tokens)) := by
  rw [lex, h]
  dsimp only
  rw [if_neg (not_or.mpr hType), hRest]
  rfl

theorem lexesTo_cons (h : Returns s (.ok token, s')) (hType : token.type ≠ .invalid ∧ token.type ≠ .endOfFile)
    (hRest : LexesTo s' found) : LexesTo s (stream [token] ++ found) := by
  obtain ⟨least, hRead⟩ := h
  obtain ⟨tokens, rfl, more, hTokens⟩ := hRest
  refine ⟨token :: tokens, ?_, max least more + 1, fun fuel hFuel => ?_⟩
  · simp only [stream, ← List.map_append, ← List.filter_append, List.singleton_append]
  · obtain ⟨fuel, rfl⟩ := Nat.exists_eq_add_of_le' (Nat.le_of_add_left_le hFuel)
    have hMore := hTokens fuel (by omega)
    exact lex_cons (readToken_le hRead (by omega)) hType hMore

theorem lexesTo_newLine (h : Returns s (.ok (.plain .newLine), s')) (hRest : LexesTo s' found) :
    LexesTo s found :=
  lexesTo_cons h ⟨nofun, nofun⟩ hRest

theorem lexesTo_end (h : Returns s (.ok (.plain .endOfFile), s')) : LexesTo s [fileEnd] := by
  obtain ⟨least, hRead⟩ := h
  refine ⟨[.plain .endOfFile], rfl, least + 1, fun fuel hFuel => ?_⟩
  obtain ⟨fuel, rfl⟩ := Nat.exists_eq_add_of_le' (Nat.le_of_add_left_le hFuel)
  rw [lex, readToken_le hRead (by omega)]
  rfl

end Words

section Gaps

variable {s : Lexer} {found : List (TokenType × Data)}

theorem getWhile_of_head {f : Char → Bool} (h : ∀ c ∈ s.is.head?, f c = false) : s.getWhile f = ([], s) := by
  have hNone : s.is.takeWhile f = [] := by
    cases hText : s.is with
    | nil => rfl
    | cons c rest => exact List.takeWhile_cons_of_neg (by simp [h c (by simp [hText])])
  rw [getWhile, hNone]
  rfl

/-- Tokens that are queued come first. -/
theorem lexesTo_queue {queue : List Token} (hBuffer : s.tokenBuffer = queue) (hQueued : Queued s)
    (hHead : ∀ c ∈ s.is.head?, ctypeWhitespace c = false)
    (h : ∀ s', s'.is = s.is → s'.tokenBuffer = [] → LexesTo s' found) : LexesTo s found := by
  induction queue generalizing s with
  | nil => exact h s rfl hBuffer
  | cons token queue ih =>
      have hStay : s.getWhile ctypeWhitespace = ([], s) := getWhile_of_head hHead
      have hFirst : token = .plain .newLine := hQueued token (hBuffer ▸ List.mem_cons_self)
      have hRead : readToken 1 s = some (.ok token, { s with tokenBuffer := queue }) := by
        have hFull : (s.getWhile ctypeWhitespace).2.tokenBuffer = token :: queue := by rw [hStay, hBuffer]
        have hNext := readToken_queued hFull 0
        rwa [hStay] at hNext
      subst hFirst
      refine lexesTo_newLine ⟨1, hRead⟩ (ih rfl ?_ hHead h)
      exact fun other hOther => hQueued other (hBuffer ▸ List.mem_cons_of_mem _ hOther)

theorem readToken_strip (fuel : Nat) (s : Lexer) :
    readToken fuel s = readToken fuel (s.getWhile ctypeWhitespace).2 := by
  have hHead : ∀ c ∈ (s.getWhile ctypeWhitespace).2.is.head?, ctypeWhitespace c = false := by
    intro c hc
    have hFirst := List.head?_dropWhile_not ctypeWhitespace s.is
    rw [getWhile_is] at hc
    rw [Option.mem_def.mp hc] at hFirst
    exact hFirst
  cases fuel with
  | zero => rfl
  | succ fuel =>
      rw [readToken, readToken, getWhile_of_head hHead]

theorem lexesTo_strip (h : LexesTo (s.getWhile ctypeWhitespace).2 found) : LexesTo s found := by
  obtain ⟨tokens, hFound, least, hTokens⟩ := h
  refine ⟨tokens, hFound, least, fun fuel hFuel => ?_⟩
  rw [← hTokens fuel hFuel]
  cases fuel with
  | zero => rfl
  | succ fuel => rw [lex, lex, readToken_strip]

theorem takeWhile_gap {f : Char → Bool} {gap text : Text} (hGap : ∀ c ∈ gap, f c)
    (hHead : ∀ c ∈ text.head?, f c = false) :
    (gap ++ text).takeWhile f = gap ∧ (gap ++ text).dropWhile f = text := by
  induction gap with
  | nil =>
      cases text with
      | nil => exact ⟨rfl, rfl⟩
      | cons c rest =>
          have hc : ¬f c := by simp [hHead c rfl]
          exact ⟨List.takeWhile_cons_of_neg hc, List.dropWhile_cons_of_neg hc⟩
  | cons c gap ih =>
      obtain ⟨hc, hRest⟩ := List.forall_mem_cons.mp hGap
      obtain ⟨hTake, hDrop⟩ := ih hRest
      rw [List.cons_append, List.takeWhile_cons_of_pos hc, List.dropWhile_cons_of_pos hc, hTake, hDrop]
      exact ⟨rfl, rfl⟩

/-- White space is skipped, and then the lines that it ended. -/
theorem lexesTo_gap {gap text : Text} (hText : s.is = gap ++ text) (hQueued : Queued s)
    (hGap : ∀ c ∈ gap, ctypeWhitespace c) (hHead : ∀ c ∈ text.head?, ctypeWhitespace c = false)
    (h : ∀ s', s'.is = text → s'.tokenBuffer = [] → LexesTo s' found) : LexesTo s found := by
  have hLeft : (s.getWhile ctypeWhitespace).2.is = text := by
    rw [getWhile_is, hText, (takeWhile_gap hGap hHead).2]
  apply lexesTo_strip
  apply lexesTo_queue rfl ((after_getWhile _ s).queued hQueued)
  · rwa [hLeft]
  · intro s' hText' hBuffer
    exact h s' (hText'.trans hLeft) hBuffer

end Gaps

section Tokens

variable {s : Lexer} {c : Char} {rest text : Text}

/-- A word is read by the class of its first character. -/
theorem returns_kind {read : Token × Lexer} (hText : s.is = c :: rest) (hBuffer : s.tokenBuffer = [])
    (hSpace : ctypeWhitespace c = false) (hKind : s.readKind c = .ok read) (hComment : ¬atComment c read)
    (hType : read.1.type ≠ .invalid) : Returns s (.ok read.1, read.2) := by
  have hStay : s.getWhile ctypeWhitespace = ([], s) := by
    apply getWhile_of_head
    rw [hText]
    intro first hFirst
    rwa [← Option.some.inj hFirst]
  have hRead := readToken_kind (s := s) (by rw [hStay, hBuffer]) (by rw [hStay, hText]) 0
  rw [hStay] at hRead
  dsimp only at hRead
  rw [hKind] at hRead
  dsimp only at hRead
  rw [if_neg hComment, checked, if_neg hType] at hRead
  exact ⟨1, hRead⟩

theorem digit_toNat (h : ctypeDigit c) : 48 ≤ c.toNat ∧ c.toNat ≤ 57 := Char.isDigit_iff_toNat.mp h

theorem identStart_not_digit (h : ctypeIdentStart c) : ctypeDigit c = false := by
  by_contra hDigit
  have hRange := digit_toNat (Bool.not_eq_false _ ▸ hDigit)
  simp only [ctypeIdentStart, ctypeAlpha, Bool.or_eq_true, decide_eq_true_eq] at h
  obtain (hAlpha | rfl) | rfl := h
  · rcases Bool.or_eq_true _ _ ▸ hAlpha with hUpper | hLower
    · have hMin : 65 ≤ c.toNat := UInt32.le_iff_toNat_le.mp (of_decide_eq_true hUpper).1
      omega
    · have hBoth : (decide ('a'.val ≤ c.val) && decide (c.val ≤ 'z'.val)) = true := hLower
      have hMin : 97 ≤ c.toNat := UInt32.le_iff_toNat_le.mp (of_decide_eq_true (Bool.and_elim_left hBoth))
      omega
  · exact absurd hDigit (by decide)
  · exact absurd hDigit (by decide)

/-- No digit runs over where the whole number does not. -/
theorem foldl_addDigit {digits : Text} (hDigits : ∀ c ∈ digits, c.isDigit) (v : Nat)
    (hSmall : Nat.ofDigitChars 10 digits v < 2 ^ 31) :
    digits.foldl addDigit (v : Int) = (Nat.ofDigitChars 10 digits v : Nat) := by
  induction digits generalizing v with
  | nil => rfl
  | cons c digits ih =>
      obtain ⟨hDigit, hRest⟩ := List.forall_mem_cons.mp hDigits
      obtain ⟨hMin, hMax⟩ := digit_toNat hDigit
      rw [Nat.ofDigitChars_cons] at hSmall ⊢
      have hLess : 10 * v + (c.toNat - '0'.toNat) ≤
          Nat.ofDigitChars 10 digits (10 * v + (c.toNat - '0'.toNat)) := by
        rw [Nat.ofDigitChars_eq_ofDigitChars_zero]
        exact Nat.le_add_right_of_le (Nat.le_mul_of_pos_left _ (Nat.pow_pos (by decide)))
      have hZero : '0'.toNat = 48 := rfl
      have hStep : addDigit v c = ((10 * v + (c.toNat - '0'.toNat) : Nat) : Int) := by
        have hTen : Characters.toInt ((v : Int) * 10) = v * 10 :=
          Characters.IsInt.toInt_eq ⟨by omega, by omega⟩
        have hSum : Characters.toInt ((v : Int) * 10 + (c.toNat - 48)) = v * 10 + (c.toNat - 48) :=
          Characters.IsInt.toInt_eq ⟨by omega, by omega⟩
        rw [addDigit, if_neg (by omega), hTen, hSum]
        omega
      rw [List.foldl_cons, hStep]
      exact ih hRest _ hSmall

theorem not_space (h : ctypeDigit c ∨ ctypeIdentStart c ∨ ctypeSymbol c ∨ ctypeOp c ∨ c = '"') :
    ctypeWhitespace c = false := by
  unfold ctypeWhitespace
  simp only [List.contains_eq_mem, List.mem_cons, List.not_mem_nil, or_false, decide_eq_false_iff_not]
  rintro (rfl | rfl | rfl | rfl | rfl | rfl)
  all_goals exact absurd h (by decide)

theorem returns_number {n : Nat} (hSmall : n < 2 ^ 31) (hText : s.is = toText n ++ text)
    (hApart : ∀ c ∈ text.head?, ctypeDigit c = false) (hBuffer : s.tokenBuffer = []) :
    ∃ s', Returns s (.ok (.of .integer (.int n)), s') ∧ s'.is = text ∧ After s s' := by
  have hDigits : ∀ c ∈ toText n, c.isDigit := by
    rw [toText, if_neg (by omega)]
    exact QuestStates.digits_isDigit _
  obtain ⟨c, digits, hWord⟩ : ∃ c digits, toText n = c :: digits := by
    apply List.exists_cons_of_ne_nil
    rw [toText, if_neg (by omega)]
    exact Nat.toDigits_ne_nil
  have hValue : Nat.ofDigitChars 10 (toText n) 0 = n := by
    rw [toText, if_neg (by omega), Int.natAbs_natCast, Nat.ofDigitChars_ten_toDigits]
  obtain ⟨hTake, hDrop⟩ := takeWhile_gap (f := ctypeDigit) hDigits hApart
  rw [hWord] at hDigits hText hValue hDrop
  rw [List.cons_append] at hText hDrop
  obtain ⟨hFirst, hRest⟩ : ctypeDigit c ∧ ∀ d ∈ digits, ctypeDigit d := List.forall_mem_cons.mp hDigits
  rw [Nat.ofDigitChars_cons, Nat.mul_zero, Nat.zero_add] at hValue
  have hBounds := digit_toNat hFirst
  have hOthers : (digits ++ text).takeWhile ctypeDigit = digits := (takeWhile_gap hRest hApart).1
  have hZero : '0'.toNat = 48 := rfl
  have hNumber : digits.foldl addDigit ((c.toNat : Int) - 48) = n := by
    have hCast : (c.toNat : Int) - 48 = ((c.toNat - '0'.toNat : Nat) : Int) := by omega
    rw [hCast, foldl_addDigit hRest _ (by omega), hValue]
  have hKind : s.readKind c = .ok (.of .integer (.int n), (s.getWhile ctypeDigit).2) := by
    rw [readKind, if_pos hFirst, readNumber_eq hText hFirst, hOthers, hNumber]
  refine ⟨(s.getWhile ctypeDigit).2, ?_, ?_, after_getWhile _ s⟩
  · exact returns_kind hText hBuffer (not_space (.inl hFirst)) hKind (not_atComment (not_op (.inl hFirst)))
      (by simp [Token.of])
  · rw [getWhile_is, hText, hDrop]

theorem returns_word {w : String} (hName : IsName w) (hText : s.is = w.toList ++ text)
    (hApart : ∀ c ∈ text.head?, ctypeIdent c = false) (hBuffer : s.tokenBuffer = []) :
    ∃ s', Returns s (.ok (.of .identifier (.string w)), s') ∧ s'.is = text ∧ After s s' := by
  obtain ⟨hStart, hRest, hLower, hTrue, hFalse⟩ := hName
  obtain ⟨c, letters, hWord⟩ : ∃ c letters, w.toList = c :: letters := by
    cases hw : w.toList with
    | nil =>
        rw [hw] at hStart
        exact absurd hStart (by decide)
    | cons c letters => exact ⟨c, letters, rfl⟩
  rw [hWord] at hStart hRest hText
  rw [List.cons_append] at hText
  rw [List.tail_cons] at hRest
  have hFirst : ctypeIdentStart c := hStart
  obtain ⟨hTake, hDrop⟩ := takeWhile_gap (List.all_eq_true.mp hRest) hApart
  have hBehind : (s.got c).is = letters ++ text := by rw [got_is, hText, List.tail_cons]
  have hName : lowercase (String.ofList (c :: letters)) = w := by rw [← hWord, String.ofList_toList, hLower]
  have hKind : s.readKind c = .ok (.of .identifier (.string w), ((s.got c).getWhile ctypeIdent).2) := by
    rw [readKind, if_neg (by simp [identStart_not_digit hFirst]), if_pos hFirst, readIdentifier, hText]
    dsimp only
    rw [if_pos hFirst, getWhile_fst, hBehind, hTake, hName, if_neg (not_or.mpr ⟨hTrue, hFalse⟩)]
  refine ⟨((s.got c).getWhile ctypeIdent).2, ?_, ?_, (after_got hText).trans (after_getWhile _ _)⟩
  · exact returns_kind hText hBuffer (not_space (.inr (.inl hFirst))) hKind
      (not_atComment (not_op (.inr (.inl hFirst)))) nofun
  · rw [getWhile_is, hBehind, hDrop]

theorem readChars_escaped (chars read : Text) (s : Lexer) (hText : s.is = escaped chars ++ '"' :: text) :
    ∃ s', readChars false read (escaped chars ++ '"' :: text) s = .ok (read ++ chars, s') ∧ s'.is = text ∧
      After s s' := by
  induction chars generalizing read s with
  | nil =>
      refine ⟨s.got '"', ?_, ?_, after_got hText⟩
      · rw [List.append_nil]
        rfl
      · rw [got_is, hText]
        rfl
  | cons c chars ih =>
      by_cases hSpecial : c = '"' ∨ c = '\\' ∨ c = '\n'
      · have hSplit : escaped (c :: chars) ++ '"' :: text = '\\' :: c :: (escaped chars ++ '"' :: text) := by
          rw [escaped, List.flatMap_cons, if_pos hSpecial]
          rfl
        rw [hSplit] at hText ⊢
        have hSecond : (s.got '\\').is = c :: (escaped chars ++ '"' :: text) := by rw [got_is, hText]; rfl
        have hThird : ((s.got '\\').got c).is = escaped chars ++ '"' :: text := by rw [got_is, hSecond]; rfl
        obtain ⟨s', hRead, hLeft, hAfter⟩ := ih (read ++ [c]) _ hThird
        refine ⟨s', ?_, hLeft, (after_got hText).trans ((after_got hSecond).trans hAfter)⟩
        have hAcc : read ++ c :: chars = read ++ [c] ++ chars := List.append_cons ..
        rw [hAcc, ← hRead]
        rfl
      · have hSplit : escaped (c :: chars) ++ '"' :: text = c :: (escaped chars ++ '"' :: text) := by
          rw [escaped, List.flatMap_cons, if_neg hSpecial]
          rfl
        rw [hSplit] at hText ⊢
        have hSecond : (s.got c).is = escaped chars ++ '"' :: text := by rw [got_is, hText]; rfl
        obtain ⟨s', hRead, hLeft, hAfter⟩ := ih (read ++ [c]) _ hSecond
        obtain ⟨hQuote, hSlash, hLine⟩ : c ≠ '"' ∧ c ≠ '\\' ∧ c ≠ '\n' := by
          simpa only [not_or] using hSpecial
        refine ⟨s', ?_, hLeft, (after_got hText).trans hAfter⟩
        have hAcc : read ++ c :: chars = read ++ [c] ++ chars := List.append_cons ..
        rw [hAcc, ← hRead, readChars, if_neg Bool.false_ne_true, if_neg hSlash, if_neg hQuote, if_neg hLine]

theorem returns_quoted {w : String} (hText : s.is = '"' :: (escaped w.toList ++ ['"']) ++ text)
    (hBuffer : s.tokenBuffer = []) :
    ∃ s', Returns s (.ok (.of .string (.string w)), s') ∧ s'.is = text ∧ After s s' := by
  have hSplit : s.is = '"' :: (escaped w.toList ++ '"' :: text) := by
    rw [hText, List.cons_append, List.append_assoc, List.singleton_append]
  have hBehind : (s.got '"').is = escaped w.toList ++ '"' :: text := by rw [got_is, hSplit, List.tail_cons]
  obtain ⟨s', hRead, hLeft, hAfter⟩ := readChars_escaped w.toList [] (s.got '"') hBehind
  have hKind : s.readKind '"' = .ok (.of .string (.string w), s') := by
    have hString : s.readKind '"' = s.readString := rfl
    rw [hString, readString, hSplit]
    dsimp only
    rw [if_pos rfl, hRead, List.nil_append, Except.map, String.ofList_toList]
  refine ⟨s', ?_, hLeft, (after_got hSplit).trans hAfter⟩
  exact returns_kind hSplit hBuffer (by decide) hKind (not_atComment (by decide)) nofun

theorem returns_symbol (hText : s.is = c :: text) (hc : c = ',' ∨ c = '.' ∨ c = '{' ∨ c = '}')
    (hBuffer : s.tokenBuffer = []) :
    Returns s (.ok (.of .symbol (.string (String.ofList [c]))), s.got c) := by
  have hClass : ctypeSymbol c ∧ ctypeDigit c = false ∧ ctypeIdentStart c = false := by
    obtain rfl | rfl | rfl | rfl := hc
    all_goals decide
  have hKind : s.readKind c = .ok (.of .symbol (.string (String.ofList [c])), s.got c) := by
    rw [readKind, if_neg (by simp [hClass.2.1]), if_neg (by simp [hClass.2.2]), if_pos hClass.1, readSymbol, hText]
    dsimp only
    rw [if_pos hClass.1]
  exact returns_kind hText hBuffer (not_space (.inr (.inr (.inl hClass.1)))) hKind
    (not_atComment (not_op (.inr (.inr hClass.1)))) nofun

theorem returns_parens (hText : s.is = c :: text) (hc : c = '(' ∨ c = ')') (hBuffer : s.tokenBuffer = []) :
    Returns s (.ok (.of .operator (.int (uop1 c))), s.got c) := by
  have hClass : ctypeOp c ∧ c ≠ '=' ∧ c ≠ '/' := by
    obtain rfl | rfl := hc
    all_goals decide
  have hOnly : ∀ cc, checkOp c cc → cc = '\x00' := by
    intro cc hCheck
    obtain hZero | ⟨rfl, -⟩ | ⟨-, rfl | rfl⟩ | ⟨-, rfl | rfl | rfl | rfl⟩ := checkOp_cases hCheck
    · exact hZero
    all_goals exact absurd hc (by decide)
  have hRead : s.readOperator = (.of .operator (.int (uop1 c)), s.got c) := by
    obtain ⟨cc, more, -, hSecond, hCheck, -⟩ | ⟨-, ⟨-, cc, hCheck, hRead⟩ | ⟨hEquals, -⟩⟩ :=
      readOperator_cases hText hClass.1
    · rw [hOnly cc hCheck] at hSecond
      exact absurd hSecond (by decide)
    · rw [hRead, hOnly cc hCheck, uop1]
    · exact absurd hEquals hClass.2.1
  have hKind : s.readKind c = .ok (.of .operator (.int (uop1 c)), s.got c) := by
    obtain ⟨hDigit, hIdent, hSymbol⟩ := op_classes hClass.1
    rw [readKind, if_neg (by simp [hDigit]), if_neg (by simp [hIdent]), if_neg (by simp [hSymbol]),
      if_pos hClass.1, hRead]
  refine returns_kind hText hBuffer (not_space (.inr (.inr (.inr (.inl hClass.1))))) hKind ?_ nofun
  intro hComment
  have hZero : checkOp c '\x00' := (checkOp_zero hClass.1).mpr hClass.2.1
  exact hClass.2.2 ((uop2_slash hClass.1 hZero).mp hComment.2.1)

end Tokens

/-- Every word is read as its token. -/
theorem returns_lexeme {s : Lexer} {w : Lexeme} {text : Text} (hReadable : w.Readable)
    (hText : s.is = w.text ++ text) (hApart : w.Apart text) (hBuffer : s.tokenBuffer = []) :
    ∃ s', Returns s (.ok (.of w.token.1 w.token.2), s') ∧ s'.is = text ∧ After s s' := by
  cases w with
  | word w => exact returns_word hReadable hText hApart hBuffer
  | number n => exact returns_number hReadable hText hApart hBuffer
  | quoted w => exact returns_quoted hText hBuffer
  | sign c =>
      have hSplit : s.is = c :: text := hText
      have hSigns : c = '(' ∨ c = ')' ∨ c = ',' ∨ c = '.' ∨ c = '{' ∨ c = '}' := hReadable
      refine ⟨s.got c, ?_, by rw [got_is, hSplit, List.tail_cons], after_got hSplit⟩
      by_cases hParens : c = '(' ∨ c = ')'
      · rw [Lexeme.token, if_pos hParens]
        exact returns_parens hSplit hParens hBuffer
      · rw [Lexeme.token, if_neg hParens]
        exact returns_symbol hSplit (by grind) hBuffer

theorem head_not_space {w : Lexeme} (hReadable : w.Readable) (text : Text) :
    ∀ c ∈ (w.text ++ text).head?, ctypeWhitespace c = false := by
  cases w with
  | word w =>
      obtain ⟨hStart, -⟩ : IsName w := hReadable
      simp only [Lexeme.text]
      cases hWord : w.toList with
      | nil =>
          rw [hWord] at hStart
          exact absurd hStart (by decide)
      | cons first letters =>
          rw [hWord] at hStart
          rintro c ⟨⟩
          exact not_space (.inr (.inl hStart))
  | number n =>
      have hDigits : ∀ c ∈ toText n, c.isDigit := by
        rw [toText, if_neg (by omega)]
        exact QuestStates.digits_isDigit _
      simp only [Lexeme.text]
      cases hWord : toText n with
      | nil =>
          rw [toText, if_neg (by omega)] at hWord
          exact absurd hWord Nat.toDigits_ne_nil
      | cons first digits =>
          rintro c ⟨⟩
          exact not_space (.inl (hDigits first (hWord ▸ List.mem_cons_self)))
  | quoted w =>
      rintro c ⟨⟩
      decide
  | sign sign =>
      have hSigns : sign = '(' ∨ sign = ')' ∨ sign = ',' ∨ sign = '.' ∨ sign = '{' ∨ sign = '}' := hReadable
      rintro c ⟨⟩
      obtain rfl | rfl | rfl | rfl | rfl | rfl := hSigns
      all_goals decide

theorem token_type (w : Lexeme) :
    w.token.1 ≠ .invalid ∧ w.token.1 ≠ .endOfFile ∧ w.token.1 ≠ .newLine := by
  cases w with
  | word w => exact ⟨nofun, nofun, nofun⟩
  | number n => exact ⟨nofun, nofun, nofun⟩
  | quoted w => exact ⟨nofun, nofun, nofun⟩
  | sign c =>
      rw [Lexeme.token]
      split
      · exact ⟨nofun, nofun, nofun⟩
      · exact ⟨nofun, nofun, nofun⟩

/-- The lexer finds the words in whatever way they are spelled. -/
theorem lexesTo_spelled {words : List Lexeme} {text : Text} (h : Spells words text)
    (hReadable : ∀ w ∈ words, w.Readable) (s : Lexer) (hText : s.is = text) (hQueued : Queued s) :
    LexesTo s (words.map Lexeme.token ++ [fileEnd]) := by
  induction h generalizing s with
  | @nil gap hGap =>
      apply lexesTo_gap (hText.trans (List.append_nil gap).symm) hQueued hGap (by simp)
      intro s' hEnd hBuffer
      have hStay : s'.getWhile ctypeWhitespace = ([], s') := getWhile_of_head (by simp [hEnd])
      refine @lexesTo_end s' s' ⟨1, ?_⟩
      rw [readToken, hStay]
      dsimp only
      rw [hBuffer, hEnd]
  | @cons gap text w words hGap hApart _ ih =>
      obtain ⟨hFirst, hRest⟩ := List.forall_mem_cons.mp hReadable
      apply lexesTo_gap hText hQueued hGap (head_not_space hFirst text)
      intro s' hText' hBuffer
      have hQueue : Queued s' := by simp [Queued, hBuffer]
      obtain ⟨s'', hReturns, hLeft, hAfter⟩ := returns_lexeme hFirst hText' hApart hBuffer
      obtain ⟨hInvalid, hEnd, hLine⟩ := token_type w
      have hAll := lexesTo_cons hReturns ⟨hInvalid, hEnd⟩ (ih hRest s'' hLeft (hAfter.queued hQueue))
      have hFound : stream [.of w.token.1 w.token.2] = [w.token] := by
        simp [stream, Token.of, hLine]
      rw [hFound] at hAll
      exact hAll

end Lexer

end Etheos.EOPlus
