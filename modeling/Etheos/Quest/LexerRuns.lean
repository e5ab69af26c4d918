import Etheos.Quest.Lexer

/-! Repeated calls of `ReadToken`. They come to an end unless the stream ends in a
comment. -/
namespace Etheos.EOPlus.Lexer

open QuestStates (Text)

section Reading

/-- The tokens that are queued when the characters are read. -/
def newLines (chars : Text) : List Token := (chars.filter (· = '\n')).map fun _ => .plain .newLine

@[simp] theorem got_is (s : Lexer) (c : Char) : (s.got c).is = s.is.tail := by
  unfold got
  split
  · rfl
  · rfl

theorem got_buffer (s : Lexer) (c : Char) : (s.got c).tokenBuffer = s.tokenBuffer ++ newLines [c] := by
  unfold got newLines
  by_cases h : c = '\n'
  · simp [h]
  · simp [h]

theorem foldl_got_is (chars rest : Text) (s : Lexer) (h : s.is = chars ++ rest) :
    (chars.foldl got s).is = rest := by
  induction chars generalizing s with
  | nil => exact h
  | cons c chars ih =>
      refine ih (s.got c) ?_
      rw [got_is, h, List.cons_append, List.tail_cons]

theorem foldl_got_buffer (chars : Text) (s : Lexer) :
    (chars.foldl got s).tokenBuffer = s.tokenBuffer ++ newLines chars := by
  induction chars generalizing s with
  | nil => simp [newLines]
  | cons c chars ih =>
      rw [List.foldl_cons, ih, got_buffer, List.append_assoc]
      simp only [newLines, ← List.map_append, ← List.filter_append, List.singleton_append]

@[simp] theorem getWhile_fst (f : Char → Bool) (s : Lexer) : (s.getWhile f).1 = s.is.takeWhile f := rfl

@[simp] theorem getWhile_is (f : Char → Bool) (s : Lexer) : (s.getWhile f).2.is = s.is.dropWhile f :=
  foldl_got_is _ _ s (List.takeWhile_append_dropWhile).symm

theorem getWhile_buffer (f : Char → Bool) (s : Lexer) :
    (s.getWhile f).2.tokenBuffer = s.tokenBuffer ++ newLines (s.is.takeWhile f) :=
  foldl_got_buffer _ s

/-- The lexer has read some characters. -/
def After (s s' : Lexer) : Prop := ∃ chars, s.is = chars ++ s'.is ∧ s' = chars.foldl got s

theorem After.refl (s : Lexer) : After s s := ⟨[], rfl, rfl⟩

theorem After.trans {s s' s'' : Lexer} (h : After s s') (h' : After s' s'') : After s s'' := by
  obtain ⟨chars, hText, rfl⟩ := h
  obtain ⟨more, hMore, rfl⟩ := h'
  refine ⟨chars ++ more, ?_, (List.foldl_append ..).symm⟩
  rw [hText, hMore, List.append_assoc]

theorem after_got {s : Lexer} {c : Char} {rest : Text} (hText : s.is = c :: rest) : After s (s.got c) :=
  ⟨[c], by rw [got_is, hText]; rfl, rfl⟩

theorem after_getWhile (f : Char → Bool) (s : Lexer) : After s (s.getWhile f).2 :=
  ⟨s.is.takeWhile f, by rw [getWhile_is, List.takeWhile_append_dropWhile], rfl⟩

/-- Only ends of lines are queued. -/
def Queued (s : Lexer) : Prop := ∀ token ∈ s.tokenBuffer, token = .plain .newLine

theorem After.queued {s s' : Lexer} (h : After s s') (hQueued : Queued s) : Queued s' := by
  obtain ⟨chars, -, rfl⟩ := h
  intro token hToken
  rw [foldl_got_buffer] at hToken
  rcases List.mem_append.mp hToken with hOld | hNew
  · exact hQueued token hOld
  · obtain ⟨_, -, rfl⟩ := List.mem_map.mp hNew
    rfl

end Reading

section Fuel

theorem skipComment_succ {fuel : Nat} {c : Char} {s s' : Lexer} (h : skipComment fuel c s = some s') :
    skipComment (fuel + 1) c s = some s' := by
  induction fuel generalizing c s with
  | zero => cases h
  | succ fuel ih =>
      unfold skipComment at h ⊢
      split at h
      case isTrue hEnd => rwa [if_pos hEnd]
      case isFalse hEnd =>
        rw [if_neg hEnd]
        split at h
        · exact ih h
        · exact ih h

theorem readToken_succ {fuel : Nat} {s : Lexer} {r : Except LexerError Token × Lexer}
    (h : readToken fuel s = some r) : readToken (fuel + 1) s = some r := by
  induction fuel generalizing s with
  | zero => cases h
  | succ fuel ih =>
      unfold readToken at h ⊢
      dsimp only at h ⊢
      split at h
      case h_1 => exact h
      case h_2 =>
        split at h
        case h_1 => exact h
        case h_2 =>
          split at h
          case h_1 => exact h
          case h_2 read _ =>
            split at h
            case isTrue hComment =>
              obtain ⟨s', hSkip, hRead⟩ := Option.bind_eq_some_iff.mp h
              rw [if_pos hComment, skipComment_succ hSkip]
              exact ih hRead
            case isFalse hOther => rwa [if_neg hOther]

theorem skipComment_le {fuel more : Nat} {c : Char} {s s' : Lexer} (h : skipComment fuel c s = some s')
    (hLe : fuel ≤ more) : skipComment more c s = some s' := by
  induction hLe with
  | refl => exact h
  | step _ ih => exact skipComment_succ ih

/-- What a call of `ReadToken` comes to. -/
def Returns (s : Lexer) (r : Except LexerError Token × Lexer) : Prop := ∃ fuel, readToken fuel s = some r

theorem readToken_le {fuel more : Nat} {s : Lexer} {r : Except LexerError Token × Lexer}
    (h : readToken fuel s = some r) (hLe : fuel ≤ more) : readToken more s = some r := by
  induction hLe with
  | refl => exact h
  | step _ ih => exact readToken_succ ih

theorem Returns.unique {s : Lexer} {r r' : Except LexerError Token × Lexer} (h : Returns s r)
    (h' : Returns s r') : r = r' := by
  obtain ⟨fuel, hRead⟩ := h
  obtain ⟨fuel', hRead'⟩ := h'
  have hMax := readToken_le hRead (Nat.le_max_left fuel fuel')
  rw [readToken_le hRead' (Nat.le_max_right fuel fuel')] at hMax
  exact (Option.some.inj hMax).symm

end Fuel

section Comments

/-- Where in a quest file a character stands, as far as comments go. -/
inductive Place
  | code | slash | equals | comparison | string | escape | comment
  deriving Repr, DecidableEq

/-- The character begins a token or goes on with one. Any other ends the reading. -/
def Place.inCode (c : Char) : Option Place :=
  if ctypeWhitespace c ∨ ctypeDigit c ∨ ctypeIdentStart c ∨ ctypeSymbol c then some .code
  else if c = '/' then some .slash
  else if c = '=' then some .equals
  else if ['<', '>', '!'].contains c then some .comparison
  else if ctypeOp c then some .code
  else if c = '"' then some .string
  else none

def Place.next : Place → Char → Option Place
  | .code, c => inCode c
  | .slash, c => if c = '/' then some .comment else inCode c
  | .equals, c => if c = '=' then some .code else none
  | .comparison, c => if c = '=' then some .code else inCode c
  | .string, c =>
      if c = '\\' then some .escape
      else if c = '"' then some .code
      else if c = '\n' then none
      else some .string
  | .escape, _ => some .string
  | .comment, c => if c = '\n' then some .code else some .comment

def scan (place : Place) : Text → Option Place
  | [] => some place
  | c :: rest => (place.next c).bind (scan · rest)

/-- The text ends in a comment, which no new line closes. -/
def EndsOpen (place : Place) (text : Text) : Prop := scan place text = some .comment

instance (place : Place) (text : Text) : Decidable (EndsOpen place text) :=
  inferInstanceAs (Decidable (_ = _))

theorem endsOpen_cons {place next : Place} {c : Char} (h : place.next c = some next) (rest : Text) :
    EndsOpen place (c :: rest) ↔ EndsOpen next rest := by
  rw [EndsOpen, scan, h, Option.bind_some, EndsOpen]

theorem not_endsOpen_cons {place : Place} {c : Char} (h : place.next c = none) (rest : Text) :
    ¬EndsOpen place (c :: rest) := by
  rw [EndsOpen, scan, h, Option.bind_none]
  intro hOpen
  cases hOpen

theorem not_endsOpen_nil {place : Place} (h : place ≠ .comment) : ¬EndsOpen place [] :=
  fun hOpen => h (Option.some.inj hOpen)

theorem endsOpen_dropWhile {f : Char → Bool} (h : ∀ c, f c → Place.code.next c = some .code) (text : Text) :
    EndsOpen .code text ↔ EndsOpen .code (text.dropWhile f) := by
  induction text with
  | nil => rfl
  | cons c rest ih =>
      rw [List.dropWhile_cons]
      split
      case isTrue hc => rw [endsOpen_cons (h c hc), ih]
      case isFalse => rfl

theorem endsOpen_comment {text : Text} (h : '\n' ∉ text) : EndsOpen .comment text := by
  induction text with
  | nil => rfl
  | cons c rest ih =>
      have hNext : Place.comment.next c = some .comment := if_neg (List.ne_of_not_mem_cons h).symm
      rw [endsOpen_cons hNext]
      exact ih (List.not_mem_of_not_mem_cons h)

theorem endsOpen_comment_line {before : Text} (h : '\n' ∉ before) (after : Text) :
    EndsOpen .comment (before ++ '\n' :: after) ↔ EndsOpen .code after := by
  induction before with
  | nil => exact endsOpen_cons (by rfl) after
  | cons c rest ih =>
      have hNext : Place.comment.next c = some .comment := if_neg (List.ne_of_not_mem_cons h).symm
      rw [List.cons_append, endsOpen_cons hNext]
      exact ih (List.not_mem_of_not_mem_cons h)

theorem skipComment_open {c : Char} {s : Lexer} (hc : c ≠ '\n') (h : '\n' ∉ s.is) (fuel : Nat) :
    skipComment fuel c s = none := by
  induction fuel generalizing c s with
  | zero => rfl
  | succ fuel ih =>
      rw [skipComment, if_neg hc]
      split
      case h_1 hEnd => exact ih hc (hEnd ▸ List.not_mem_nil)
      case h_2 next rest hNext =>
        rw [hNext] at h
        refine ih (List.ne_of_not_mem_cons h).symm ?_
        rw [got_is, hNext]
        exact List.not_mem_of_not_mem_cons h

theorem skipComment_line {c : Char} {s : Lexer} (hc : c ≠ '\n') {before after : Text}
    (hText : s.is = before ++ '\n' :: after) (h : '\n' ∉ before) :
    ∃ fuel, skipComment fuel c s = some ((before ++ ['\n']).foldl got s) := by
  induction before generalizing c s with
  | nil =>
      refine ⟨2, ?_⟩
      rw [skipComment, if_neg hc, hText]
      rfl
  | cons next rest ih =>
      have hRest : (s.got next).is = rest ++ '\n' :: after := by
        rw [got_is, hText]
        rfl
      obtain ⟨fuel, hSkip⟩ :=
        ih (List.ne_of_not_mem_cons h).symm hRest (List.not_mem_of_not_mem_cons h)
      refine ⟨fuel + 1, ?_⟩
      rw [skipComment, if_neg hc, hText]
      exact hSkip

end Comments

section Operators

theorem checkOp_cases {a b : Char} (h : checkOp a b) :
    b = '\x00' ∨ (a = '-' ∧ b = '\x02') ∨ (b = a ∧ (a = '&' ∨ a = '|')) ∨
      (b = '=' ∧ (a = '<' ∨ a = '>' ∨ a = '!' ∨ a = '=')) := by
  unfold checkOp at h
  simp only [List.contains_eq_mem, List.mem_cons, List.not_mem_nil, or_false] at h
  grind

theorem ctypeOp_cases {c : Char} (h : ctypeOp c) :
    c = '/' ∨ c = '=' ∨ (c = '<' ∨ c = '>' ∨ c = '!') ∨
      (c = '(' ∨ c = ')' ∨ c = '&' ∨ c = '|' ∨ c = '+' ∨ c = '-' ∨ c = '*' ∨ c = '%') := by
  unfold ctypeOp at h
  simp only [List.contains_eq_mem, List.mem_cons, List.not_mem_nil, or_false] at h
  grind

theorem inCode_op {c : Char} (h : ctypeOp c) :
    (c = '/' ∧ Place.inCode c = some .slash) ∨ (c = '=' ∧ Place.inCode c = some .equals) ∨
      ((c ≠ '/' ∧ c ≠ '=' ∧ checkOp c '=') ∧ Place.inCode c = some .comparison) ∨
      ((c ≠ '/' ∧ c ≠ '=') ∧ Place.inCode c = some .code) := by
  obtain rfl | rfl | (rfl | rfl | rfl) | (rfl | rfl | rfl | rfl | rfl | rfl | rfl | rfl) := ctypeOp_cases h
  all_goals decide

theorem checkOp_zero {c : Char} (h : ctypeOp c) : checkOp c '\x00' ↔ c ≠ '=' := by
  obtain rfl | rfl | (rfl | rfl | rfl) | (rfl | rfl | rfl | rfl | rfl | rfl | rfl | rfl) := ctypeOp_cases h
  all_goals decide

theorem uop2_slash {c cc : Char} (hOp : ctypeOp c) (h : checkOp c cc) :
    uop2 c cc = uop2 '/' '\x00' ↔ c = '/' := by
  obtain rfl | ⟨rfl, rfl⟩ | ⟨rfl, rfl | rfl⟩ | ⟨rfl, rfl | rfl | rfl | rfl⟩ := checkOp_cases h
  case inl =>
    obtain rfl | rfl | (rfl | rfl | rfl) | (rfl | rfl | rfl | rfl | rfl | rfl | rfl | rfl) := ctypeOp_cases hOp
    all_goals decide
  all_goals decide

/-- An operator of two characters. -/
theorem endsOpen_pair {c cc : Char} (hc : ctypeOp cc) (h : checkOp c cc) (rest : Text) :
    EndsOpen .code (c :: cc :: rest) ↔ EndsOpen .code rest := by
  obtain rfl | ⟨rfl, rfl⟩ | ⟨rfl, rfl | rfl⟩ | ⟨rfl, rfl | rfl | rfl | rfl⟩ := checkOp_cases h
  case inl => cases hc
  case inr.inl => cases hc
  all_goals exact (endsOpen_cons (by rfl) _).trans (endsOpen_cons (by rfl) _)

/-- An operator of one character, which is no slash. -/
theorem endsOpen_single {c : Char} {rest : Text} (hc : ctypeOp c) (hSlash : c ≠ '/')
    (hNext : checkOp c '=' → rest.head? ≠ some '=') :
    EndsOpen .code (c :: rest) ↔ c ≠ '=' ∧ EndsOpen .code rest := by
  obtain ⟨rfl, -⟩ | ⟨rfl, hPlace⟩ | ⟨⟨-, hEquals, hCheck⟩, hPlace⟩ | ⟨⟨-, hEquals⟩, hPlace⟩ := inCode_op hc
  · exact absurd rfl hSlash
  · refine iff_of_false ?_ fun h => h.1 rfl
    rw [@endsOpen_cons .code _ _ hPlace]
    cases rest with
    | nil => exact not_endsOpen_nil (by decide)
    | cons cc rest =>
        have hOther : cc ≠ '=' := fun h => hNext (by decide) (congrArg some h)
        exact @not_endsOpen_cons .equals _ (if_neg hOther) rest
  · rw [@endsOpen_cons .code _ _ hPlace, and_iff_right hEquals]
    cases rest with
    | nil => exact iff_of_false (not_endsOpen_nil (by decide)) (not_endsOpen_nil (by decide))
    | cons cc rest =>
        have hOther : cc ≠ '=' := fun h => hNext hCheck (congrArg some h)
        have hSame : Place.comparison.next cc = Place.code.next cc := if_neg hOther
        rw [EndsOpen, scan, hSame]
        rfl
  · rw [@endsOpen_cons .code _ _ hPlace, and_iff_right hEquals]

/-- What `ReadOperator` can do: two characters, one, or no operator at all. -/
theorem readOperator_cases {s : Lexer} {c : Char} {rest : Text} (hText : s.is = c :: rest) (hOp : ctypeOp c) :
    (∃ cc more, rest = cc :: more ∧ ctypeOp cc ∧ checkOp c cc ∧
      s.readOperator = (.of .operator (.int (uop2 c cc)), (s.got c).got cc)) ∨
    ((checkOp c '=' → rest.head? ≠ some '=') ∧
      ((c ≠ '=' ∧ ∃ cc, checkOp c cc ∧ s.readOperator = (.of .operator (.int (uop2 c cc)), s.got c)) ∨
        (c = '=' ∧ s.readOperator = (.plain .invalid, s.got c)))) := by
  have hZero := checkOp_zero hOp
  unfold readOperator
  rw [hText]
  dsimp only
  rw [if_pos hOp]
  by_cases hPair : checkOp c (rest.headD '\x00') ∧ rest ≠ [] ∧ ctypeOp (rest.headD '\x00')
  · rw [if_pos hPair, if_pos hPair.1]
    obtain ⟨hCheck, hSome, hSecond⟩ := hPair
    obtain ⟨cc, more, rfl⟩ := List.exists_cons_of_ne_nil hSome
    exact .inl ⟨cc, more, rfl, hSecond, hCheck, rfl⟩
  · rw [if_neg hPair]
    refine .inr ⟨?_, ?_⟩
    · intro hCheck hHead
      obtain ⟨more, rfl⟩ : ∃ more, rest = '=' :: more := by
        cases rest with
        | nil => cases hHead
        | cons cc more => exact ⟨more, by rw [Option.some.inj hHead]⟩
      exact hPair ⟨hCheck, List.cons_ne_nil _ _, (by decide : ctypeOp '=')⟩
    · by_cases hCheck : checkOp c (rest.headD '\x00')
      · rw [if_pos hCheck]
        refine .inl ⟨?_, _, hCheck, rfl⟩
        rintro rfl
        obtain hNil | ⟨h, -⟩ | ⟨-, h⟩ | ⟨hSecond, -⟩ := checkOp_cases hCheck
        · rw [hNil] at hCheck
          exact absurd hCheck (by decide)
        · exact absurd h (by decide)
        · exact absurd h (by decide)
        · refine hPair ⟨hCheck, ?_, ?_⟩
          · rintro rfl
            exact absurd hSecond (by decide)
          · rw [hSecond]
            decide
      · rw [if_neg hCheck]
        by_cases hEquals : c = '='
        · rw [if_neg (fun h => hZero.mp h hEquals)]
          exact .inr ⟨hEquals, rfl⟩
        · rw [if_pos (hZero.mpr hEquals)]
          exact .inl ⟨hEquals, _, hZero.mpr hEquals, rfl⟩

end Operators

section Kinds

/-- What one token can be, by what is left of the stream behind it. -/
inductive Kind (s : Lexer) (c : Char) : Except LexerError (Token × Lexer) → Prop where
  | thrown (e : LexerError) (hClosed : ¬EndsOpen .code s.is) : Kind s c (.error e)
  | unknown (read : Token × Lexer) (hType : read.1.type = .invalid) (hComment : ¬atComment c read)
      (hClosed : ¬EndsOpen .code s.is) : Kind s c (.ok read)
  | token (read : Token × Lexer) (hType : read.1.type ≠ .invalid ∧ read.1.type ≠ .endOfFile)
      (hAfter : After s read.2) (hShorter : read.2.is.length < s.is.length)
      (hComment : ¬atComment c read) (hSame : EndsOpen .code s.is ↔ EndsOpen .code read.2.is) : Kind s c (.ok read)
  | comment (read : Token × Lexer) (hAfter : After s read.2) (hComment : atComment c read)
      (hSlash : c = '/') (hText : s.is = '/' :: read.2.is) : Kind s c (.ok read)

theorem not_atComment {c : Char} {read : Token × Lexer} (h : ctypeOp c = false) : ¬atComment c read :=
  fun hComment => Bool.false_ne_true (h.symm.trans hComment.1)

theorem next_digit (c : Char) (h : ctypeDigit c) : Place.code.next c = some .code :=
  if_pos (.inr (.inl h))

theorem next_identStart (c : Char) (h : ctypeIdentStart c) : Place.code.next c = some .code :=
  if_pos (.inr (.inr (.inl h)))

theorem next_ident (c : Char) (h : ctypeIdent c) : Place.code.next c = some .code := by
  unfold ctypeIdent at h
  rw [Bool.and_eq_true, Bool.or_eq_true] at h
  exact h.2.elim (next_identStart c) (next_digit c)

theorem length_dropWhile_lt (f : Char → Bool) (c : Char) (rest : Text) :
    (rest.dropWhile f).length < (c :: rest).length :=
  Nat.lt_succ_of_le (List.dropWhile_suffix f).length_le

variable {s : Lexer} {c : Char} {rest : Text}

theorem readNumber_eq (hText : s.is = c :: rest) (hc : ctypeDigit c) :
    s.readNumber = (.of .integer (.int ((rest.takeWhile ctypeDigit).foldl addDigit ((c.toNat : Int) - 48))),
      (s.getWhile ctypeDigit).2) := by
  have hDigits : (s.getWhile ctypeDigit).1 = c :: rest.takeWhile ctypeDigit := by
    rw [getWhile_fst, hText, List.takeWhile_cons_of_pos hc]
  unfold readNumber
  rw [← Prod.mk.eta (p := s.getWhile ctypeDigit), hDigits]

theorem kind_number (hText : s.is = c :: rest) (hc : ctypeDigit c) (hOp : ctypeOp c = false) :
    Kind s c (.ok s.readNumber) := by
  have hBehind : (s.getWhile ctypeDigit).2.is = rest.dropWhile ctypeDigit := by
    rw [getWhile_is, hText, List.dropWhile_cons_of_pos hc]
  rw [readNumber_eq hText hc]
  refine .token _ ⟨nofun, nofun⟩ (after_getWhile _ s) ?_ (not_atComment hOp) ?_
  · rw [hBehind, hText]
    exact length_dropWhile_lt _ _ _
  · rw [hBehind, hText, endsOpen_cons (next_digit c hc)]
    exact endsOpen_dropWhile next_digit rest

theorem kind_identifier (hText : s.is = c :: rest) (hc : ctypeIdentStart c) (hOp : ctypeOp c = false) :
    Kind s c (.ok s.readIdentifier) := by
  have hBehind : ((s.got c).getWhile ctypeIdent).2.is = rest.dropWhile ctypeIdent := by
    rw [getWhile_is, got_is, hText, List.tail_cons]
  have hShorter : ((s.got c).getWhile ctypeIdent).2.is.length < s.is.length := by
    rw [hBehind, hText]
    exact length_dropWhile_lt _ _ _
  have hSame : EndsOpen .code s.is ↔ EndsOpen .code ((s.got c).getWhile ctypeIdent).2.is := by
    rw [hBehind, hText, endsOpen_cons (next_identStart c hc)]
    exact endsOpen_dropWhile next_ident rest
  unfold readIdentifier
  rw [hText]
  dsimp only
  rw [if_pos hc]
  have hAfter := (after_got hText).trans (after_getWhile ctypeIdent (s.got c))
  split
  · exact .token _ ⟨nofun, nofun⟩ hAfter hShorter (not_atComment hOp) hSame
  · exact .token _ ⟨nofun, nofun⟩ hAfter hShorter (not_atComment hOp) hSame

theorem kind_symbol (hText : s.is = c :: rest) (hc : ctypeSymbol c) (hOp : ctypeOp c = false) :
    Kind s c (.ok s.readSymbol) := by
  unfold readSymbol
  rw [hText]
  dsimp only
  rw [if_pos hc]
  refine .token _ ⟨nofun, nofun⟩ (after_got hText) ?_ (not_atComment hOp) ?_
  · rw [got_is, hText]
    exact Nat.lt_succ_self _
  · have hNext : Place.code.next c = some .code := if_pos (.inr (.inr (.inr hc)))
    rw [got_is, hText]
    exact endsOpen_cons hNext rest

theorem kind_operator (hText : s.is = c :: rest) (hc : ctypeOp c) : Kind s c (.ok s.readOperator) := by
  have hBehind : (s.got c).is = rest := by rw [got_is, hText, List.tail_cons]
  obtain ⟨cc, more, rfl, hSecond, hCheck, hRead⟩ | ⟨hNext, ⟨hEquals, cc, hCheck, hRead⟩ | ⟨hEquals, hRead⟩⟩ :=
    readOperator_cases hText hc
  · have hSlash : c ≠ '/' := by
      rintro rfl
      obtain hNil | ⟨h, -⟩ | ⟨-, h⟩ | ⟨-, h⟩ := checkOp_cases hCheck
      · rw [hNil] at hSecond
        exact absurd hSecond (by decide)
      all_goals exact absurd h (by decide)
    have hLeft : ((s.got c).got cc).is = more := by rw [got_is, hBehind, List.tail_cons]
    have hAfter : After s ((s.got c).got cc) := (after_got hText).trans (after_got hBehind)
    rw [hRead]
    refine .token _ ⟨nofun, nofun⟩ hAfter ?_ (fun h => hSlash ((uop2_slash hc hCheck).mp h.2.1)) ?_
    · rw [hLeft, hText, List.length_cons, List.length_cons]
      omega
    · rw [hLeft, hText]
      exact endsOpen_pair hSecond hCheck more
  · rw [hRead]
    by_cases hComment : atComment c (.of .operator (.int (uop2 c cc)), s.got c)
    · obtain rfl := (uop2_slash hc hCheck).mp hComment.2.1
      exact .comment _ (after_got hText) hComment rfl (by rw [hText, hBehind])
    · refine .token _ ⟨nofun, nofun⟩ (after_got hText) ?_ hComment ?_
      · rw [hBehind, hText]
        exact Nat.lt_succ_self _
      · rw [hBehind, hText]
        by_cases hSlash : c = '/'
        · subst hSlash
          rw [@endsOpen_cons .code .slash _ (by decide)]
          have hHead : rest.head? ≠ some '/' := fun h =>
            hComment ⟨hc, (uop2_slash hc hCheck).mpr rfl, hBehind.symm ▸ h⟩
          cases rest with
          | nil => exact iff_of_false (not_endsOpen_nil (by decide)) (not_endsOpen_nil (by decide))
          | cons next rest =>
              have hOther : next ≠ '/' := fun h => hHead (congrArg some h)
              have hStep : Place.slash.next next = Place.code.next next := if_neg hOther
              rw [EndsOpen, scan, hStep]
              rfl
        · rw [endsOpen_single hc hSlash hNext]
          exact and_iff_right hEquals
  · rw [hRead]
    refine .unknown _ rfl (fun h => absurd h.2.1 (by decide : (0 : Int) ≠ uop2 '/' '\x00')) ?_
    rw [hText, endsOpen_single hc (by rw [hEquals]; decide) hNext]
    exact fun h => h.1 hEquals

/-- What the rest of a string leaves behind. -/
def StringRead (place : Place) (s : Lexer) : Except LexerError (Text × Lexer) → Prop
  | .error _ => ¬EndsOpen place s.is
  | .ok (_, s') => After s s' ∧ (EndsOpen place s.is ↔ EndsOpen .code s'.is)

theorem StringRead.cons {place next : Place} {result : Except LexerError (Text × Lexer)}
    (hText : s.is = c :: rest) (hNext : place.next c = some next) (h : StringRead next (s.got c) result) :
    StringRead place s result := by
  have hSame : EndsOpen place s.is ↔ EndsOpen next (s.got c).is := by
    rw [got_is, hText]
    exact endsOpen_cons hNext rest
  cases result with
  | error e => exact fun hOpen => h (hSame.mp hOpen)
  | ok read => exact ⟨(after_got hText).trans h.1, hSame.trans h.2⟩

theorem readChars_read (escape : Bool) (chars text : Text) (s : Lexer) (hText : s.is = text) :
    StringRead (if escape then .escape else .string) s (readChars escape chars text s) := by
  induction text generalizing escape chars s with
  | nil =>
      refine ⟨.refl s, ?_⟩
      rw [hText]
      refine iff_of_false (not_endsOpen_nil ?_) (not_endsOpen_nil (by decide))
      cases escape
      · decide
      · decide
  | cons c rest ih =>
      have hRest : (s.got c).is = rest := by rw [got_is, hText, List.tail_cons]
      rw [readChars]
      cases escape with
      | true => exact .cons hText (by rfl) (ih false (chars ++ [c]) _ hRest)
      | false =>
          rw [if_neg Bool.false_ne_true, if_neg Bool.false_ne_true]
          by_cases hSlash : c = '\\'
          · rw [if_pos hSlash]
            exact .cons hText (if_pos hSlash) (ih true chars _ hRest)
          · rw [if_neg hSlash]
            by_cases hQuote : c = '"'
            · rw [if_pos hQuote]
              have hNext : Place.string.next c = some .code := (if_neg hSlash).trans (if_pos hQuote)
              refine ⟨after_got hText, ?_⟩
              rw [hRest, hText]
              exact endsOpen_cons hNext rest
            · rw [if_neg hQuote]
              by_cases hLine : c = '\n'
              · rw [if_pos hLine]
                have hNext : Place.string.next c = none :=
                  (if_neg hSlash).trans ((if_neg hQuote).trans (if_pos hLine))
                intro hOpen
                rw [hText] at hOpen
                exact not_endsOpen_cons hNext rest hOpen
              · rw [if_neg hLine]
                have hNext : Place.string.next c = some .string :=
                  (if_neg hSlash).trans ((if_neg hQuote).trans (if_neg hLine))
                exact .cons hText hNext (ih false (chars ++ [c]) _ hRest)

theorem After.length_le {s s' : Lexer} (h : After s s') : s'.is.length ≤ s.is.length := by
  obtain ⟨chars, hText, -⟩ := h
  rw [hText, List.length_append]
  exact Nat.le_add_left _ _

theorem kind_string (hText : s.is = '"' :: rest) : Kind s '"' s.readString := by
  have hBehind : (s.got '"').is = rest := by rw [got_is, hText, List.tail_cons]
  have hRead := readChars_read false [] rest (s.got '"') hBehind
  have hOpen : EndsOpen .code s.is ↔ EndsOpen .string (s.got '"').is := by
    rw [hText, hBehind]
    exact endsOpen_cons (by decide) rest
  unfold readString
  rw [hText]
  dsimp only
  rw [if_pos rfl]
  cases hResult : readChars false [] rest (s.got '"') with
  | error e =>
      rw [hResult] at hRead
      exact .thrown e fun h => hRead (hOpen.mp h)
  | ok read =>
      rw [hResult] at hRead
      refine .token _ ⟨nofun, nofun⟩ ((after_got hText).trans hRead.1) ?_ (not_atComment (by decide))
        (hOpen.trans hRead.2)
      have hLength := hRead.1.length_le
      rw [hBehind] at hLength
      rw [hText]
      exact Nat.lt_succ_of_le hLength

theorem op_classes (h : ctypeOp c) :
    ctypeDigit c = false ∧ ctypeIdentStart c = false ∧ ctypeSymbol c = false := by
  obtain rfl | rfl | (rfl | rfl | rfl) | (rfl | rfl | rfl | rfl | rfl | rfl | rfl | rfl) := ctypeOp_cases h
  all_goals decide

theorem not_op (h : ctypeDigit c ∨ ctypeIdentStart c ∨ ctypeSymbol c) : ctypeOp c = false := by
  by_contra hOp
  obtain ⟨hDigit, hIdent, hSymbol⟩ := op_classes (Bool.not_eq_false _ ▸ hOp)
  rw [hDigit, hIdent, hSymbol] at h
  simp at h

theorem readKind_kind (hText : s.is = c :: rest) (hSpace : ¬ctypeWhitespace c) : Kind s c (s.readKind c) := by
  unfold readKind
  by_cases hDigit : ctypeDigit c
  · rw [if_pos hDigit]
    exact kind_number hText hDigit (not_op (.inl hDigit))
  by_cases hIdent : ctypeIdentStart c
  · rw [if_neg hDigit, if_pos hIdent]
    exact kind_identifier hText hIdent (not_op (.inr (.inl hIdent)))
  by_cases hSymbol : ctypeSymbol c
  · rw [if_neg hDigit, if_neg hIdent, if_pos hSymbol]
    exact kind_symbol hText hSymbol (not_op (.inr (.inr hSymbol)))
  rw [if_neg hDigit, if_neg hIdent, if_neg hSymbol]
  by_cases hOp : ctypeOp c
  · rw [if_pos hOp]
    exact kind_operator hText hOp
  rw [if_neg hOp]
  by_cases hQuote : c = '"'
  · subst hQuote
    exact kind_string hText
  · rw [if_neg hQuote]
    have hNext : Place.code.next c = none := by
      have hSlash : c ≠ '/' := by rintro rfl; exact hOp (by decide)
      have hEquals : c ≠ '=' := by rintro rfl; exact hOp (by decide)
      have hComparison : ¬['<', '>', '!'].contains c := by
        intro h
        simp only [List.contains_eq_mem, List.mem_cons, List.not_mem_nil, or_false, decide_eq_true_eq] at h
        obtain rfl | rfl | rfl := h
        all_goals exact hOp (by decide)
      refine (if_neg ?_).trans ((if_neg hSlash).trans ((if_neg hEquals).trans
        ((if_neg hComparison).trans ((if_neg hOp).trans (if_neg hQuote)))))
      rintro (h | h | h | h)
      · exact hSpace h
      · exact hDigit h
      · exact hIdent h
      · exact hSymbol h
    refine .unknown _ rfl (fun h => hOp h.1) ?_
    rw [hText]
    exact not_endsOpen_cons hNext rest

end Kinds

section Calls

/-- A call reads characters, or takes a token that has been queued. -/
def Consumes (s s' : Lexer) (token : Token) : Prop :=
  s'.is.length < s.is.length ∨ (s'.is = s.is ∧ s.tokenBuffer = token :: s'.tokenBuffer)

/-- Repeated calls reach the end of the file or an error, and each of them consumes something. -/
inductive Finishes : Lexer → Prop where
  | ended {s s' : Lexer} (h : Returns s (.ok (.plain .endOfFile), s')) : Finishes s
  | thrown {s s' : Lexer} {e : LexerError} (h : Returns s (.error e, s')) : Finishes s
  | call {s s' : Lexer} {token : Token} (h : Returns s (.ok token, s')) (hType : token.type ≠ .endOfFile)
      (hConsumes : Consumes s s' token) (rest : Finishes s') : Finishes s

/-- All that a call of `ReadToken` can do. -/
inductive Outcome (s : Lexer) : Prop where
  | ended (s' : Lexer) (h : Returns s (.ok (.plain .endOfFile), s')) (hClosed : ¬EndsOpen .code s.is)
  | thrown (e : LexerError) (s' : Lexer) (h : Returns s (.error e, s')) (hClosed : ¬EndsOpen .code s.is)
  | token (token : Token) (s' : Lexer) (h : Returns s (.ok token, s')) (hType : token.type ≠ .endOfFile)
      (hConsumes : Consumes s s' token) (hQueued : Queued s')
      (hSame : EndsOpen .code s.is ↔ EndsOpen .code s'.is)
  | stuck (h : ∀ r, ¬Returns s r) (hOpen : EndsOpen .code s.is)

/-- A token that is queued is returned at once. -/
theorem readToken_queued {s : Lexer} {token : Token} {queue : List Token}
    (h : (s.getWhile ctypeWhitespace).2.tokenBuffer = token :: queue) (fuel : Nat) :
    readToken (fuel + 1) s =
      some (.ok token, { (s.getWhile ctypeWhitespace).2 with tokenBuffer := queue }) := by
  rw [readToken]
  dsimp only
  rw [h]

/-- A token is read where none is queued. -/
theorem readToken_kind {s : Lexer} {c : Char} {rest : Text}
    (hQueue : (s.getWhile ctypeWhitespace).2.tokenBuffer = [])
    (hText : (s.getWhile ctypeWhitespace).2.is = c :: rest) (fuel : Nat) :
    readToken (fuel + 1) s =
      match (s.getWhile ctypeWhitespace).2.readKind c with
      | .error e => some (.error e, (s.getWhile ctypeWhitespace).2)
      | .ok read =>
          if atComment c read then (skipComment fuel c read.2).bind (readToken fuel)
          else some (checked read) := by
  rw [readToken, hQueue, hText] <;> rfl

theorem next_whitespace (c : Char) (h : ctypeWhitespace c) : Place.code.next c = some .code :=
  if_pos (.inl h)

theorem endsOpen_atComment {text : Text} (h : text.head? = some '/') :
    EndsOpen .code ('/' :: text) ↔ EndsOpen .comment text := by
  obtain ⟨rest, rfl⟩ : ∃ rest, text = '/' :: rest := by
    cases text with
    | nil => cases h
    | cons c rest => exact ⟨rest, by rw [Option.some.inj h]⟩
  have hFirst : Place.code.next '/' = some .slash := by decide
  have hSecond : Place.slash.next '/' = some .comment := by decide
  have hInside : Place.comment.next '/' = some .comment := by decide
  rw [endsOpen_cons hFirst, endsOpen_cons hSecond, endsOpen_cons hInside]

/-- A queued token is handed out, whatever white space comes before the rest. -/
theorem outcome_queued {s : Lexer} (hQueued : Queued s) {token : Token} {queue : List Token}
    (hBuffer : (s.getWhile ctypeWhitespace).2.tokenBuffer = token :: queue) : Outcome s := by
  have hAfter := after_getWhile ctypeWhitespace s
  have hAll := hAfter.queued hQueued
  rw [Queued, hBuffer] at hAll
  refine .token token _ ⟨1, readToken_queued hBuffer 0⟩ ?_ ?_ ?_ ?_
  · rw [hAll token List.mem_cons_self]
    exact nofun
  · obtain ⟨chars, hText, hRead⟩ := hAfter
    cases chars with
    | nil => exact .inr ⟨hText.symm, by rw [← hBuffer, hRead]; rfl⟩
    | cons c chars =>
        refine .inl ?_
        rw [hText, List.length_append, List.length_cons]
        dsimp only
        omega
  · exact fun other hOther => hAll other (List.mem_cons_of_mem _ hOther)
  · rw [getWhile_is]
    exact endsOpen_dropWhile next_whitespace s.is

/-- Behind a comment the end of its line is handed out. -/
theorem outcome_comment {s t : Lexer} {c : Char} {read : Token × Lexer} (hQueued : Queued t)
    (hShorter : read.2.is.length < s.is.length) (hAfter : After t read.2)
    (hSame : EndsOpen .code s.is ↔ EndsOpen .comment read.2.is) (hc : c ≠ '\n')
    (hRead : ∀ fuel, readToken (fuel + 1) s = (skipComment fuel c read.2).bind (readToken fuel)) :
    Outcome s := by
  by_cases hLine : '\n' ∈ read.2.is
  · obtain ⟨before, after, hText, hBefore⟩ := List.eq_append_cons_of_mem hLine
    obtain ⟨fuel, hSkip⟩ := skipComment_line hc hText hBefore
    have hSplit : read.2.is = (before ++ ['\n']) ++ after := by
      rw [hText, List.append_assoc, List.singleton_append]
    have hLeft : ((before ++ ['\n']).foldl got read.2).is = after := foldl_got_is _ _ _ hSplit
    have hBehind : After t ((before ++ ['\n']).foldl got read.2) :=
      hAfter.trans ⟨_, by rw [hLeft, hSplit], rfl⟩
    obtain ⟨token, queue, hBuffer⟩ : ∃ token queue,
        (((before ++ ['\n']).foldl got read.2).getWhile ctypeWhitespace).2.tokenBuffer = token :: queue := by
      rw [getWhile_buffer, foldl_got_buffer]
      simp only [newLines, List.filter_append, List.filter_singleton, decide_true, cond_true, List.map_append,
        List.map_singleton, List.append_assoc]
      exact List.exists_cons_of_ne_nil (by simp)
    have hLift : ∀ r, Returns ((before ++ ['\n']).foldl got read.2) r → Returns s r := by
      rintro r ⟨more, hResult⟩
      refine ⟨max fuel more + 1, ?_⟩
      rw [hRead, skipComment_le hSkip (Nat.le_max_left fuel more)]
      exact readToken_le hResult (Nat.le_max_right fuel more)
    have hOpen : EndsOpen .code s.is ↔ EndsOpen .code ((before ++ ['\n']).foldl got read.2).is := by
      rw [hSame, hLeft, hText]
      exact endsOpen_comment_line hBefore after
    cases outcome_queued (hBehind.queued hQueued) hBuffer with
    | ended s' h hClosed => exact .ended s' (hLift _ h) fun hs => hClosed (hOpen.mp hs)
    | thrown e s' h hClosed => exact .thrown e s' (hLift _ h) fun hs => hClosed (hOpen.mp hs)
    | token token s' h hType hConsumes hQueue hLater =>
        refine .token token s' (hLift _ h) hType (.inl ?_) hQueue (hOpen.trans hLater)
        have hLength : after.length ≤ read.2.is.length := by
          rw [hText, List.length_append, List.length_cons]
          omega
        rcases hConsumes with hLess | ⟨hEqual, -⟩
        · rw [hLeft] at hLess
          omega
        · rw [hEqual, hLeft]
          omega
    | stuck h _ => exact absurd ⟨1, readToken_queued hBuffer 0⟩ (h _)
  · refine .stuck ?_ (hSame.mpr (endsOpen_comment hLine))
    rintro r ⟨fuel, hResult⟩
    cases fuel with
    | zero => cases hResult
    | succ fuel =>
        rw [hRead, skipComment_open hc hLine] at hResult
        cases hResult

theorem outcome {s : Lexer} (hQueued : Queued s) : Outcome s := by
  have hAfter := after_getWhile ctypeWhitespace s
  have hQueue := hAfter.queued hQueued
  have hSame : EndsOpen .code s.is ↔ EndsOpen .code (s.getWhile ctypeWhitespace).2.is := by
    rw [getWhile_is]
    exact endsOpen_dropWhile next_whitespace s.is
  have hLength := hAfter.length_le
  cases hBuffer : (s.getWhile ctypeWhitespace).2.tokenBuffer with
  | cons token queue => exact outcome_queued hQueued hBuffer
  | nil =>
      cases hText : (s.getWhile ctypeWhitespace).2.is with
      | nil =>
          rw [hText] at hSame
          refine .ended (s.getWhile ctypeWhitespace).2 ⟨1, ?_⟩ fun hs => not_endsOpen_nil (by decide) (hSame.mp hs)
          rw [readToken, hBuffer, hText]
      | cons c rest =>
          have hSpace : ¬ctypeWhitespace c := by
            rw [getWhile_is] at hText
            have hHead := List.head?_dropWhile_not ctypeWhitespace s.is
            rw [hText] at hHead
            simpa using hHead
          have hRead := readToken_kind hBuffer hText
          have hKind := readKind_kind hText hSpace
          generalize (s.getWhile ctypeWhitespace).2.readKind c = result at hRead hKind
          cases hKind with
          | thrown e hClosed => exact .thrown e _ ⟨1, hRead 0⟩ fun hs => hClosed (hSame.mp hs)
          | unknown read hType hComment hClosed =>
              refine .thrown ⟨"Unknown token", read.2.row, read.2.col⟩ read.2 ⟨1, ?_⟩ fun hs =>
                hClosed (hSame.mp hs)
              rw [hRead 0]
              dsimp only
              rw [if_neg hComment, checked, if_pos hType]
          | token read hType hTaken hShorter hComment hLeft =>
              refine .token read.1 read.2 ⟨1, ?_⟩ hType.2 (.inl (by omega)) (hTaken.queued hQueue)
                (hSame.trans hLeft)
              rw [hRead 0]
              dsimp only
              rw [if_neg hComment, checked, if_neg hType.1]
          | comment read hTaken hComment hSlash hSplit =>
              subst hSlash
              refine @outcome_comment s _ '/' read hQueue ?_ hTaken ?_ (by decide) fun fuel => ?_
              · rw [hSplit, List.length_cons] at hLength
                exact hLength
              · rw [hSame, hSplit]
                exact endsOpen_atComment hComment.2.2
              · rw [hRead fuel]
                exact if_pos hComment

/-- Calls go on until something ends them, unless there is a comment that nothing ends. -/
theorem finishes_of_closed {s : Lexer} (hQueued : Queued s) (h : ¬EndsOpen .code s.is) : Finishes s := by
  cases outcome hQueued with
  | ended s' hReturns _ => exact .ended hReturns
  | thrown e s' hReturns _ => exact .thrown hReturns
  | token token s' hReturns hType hConsumes hQueue hSame =>
      exact .call hReturns hType hConsumes (finishes_of_closed hQueue fun hs => h (hSame.mpr hs))
  | stuck _ hOpen => exact absurd hOpen h
termination_by (s.is.length, s.tokenBuffer.length)
decreasing_by
  rcases hConsumes with hLess | ⟨hEqual, hTaken⟩
  · exact Prod.Lex.left _ _ hLess
  · rw [hEqual, hTaken]
    exact Prod.Lex.right _ (Nat.lt_succ_self _)

theorem Finishes.closed {s : Lexer} (h : Finishes s) (hQueued : Queued s) : ¬EndsOpen .code s.is := by
  induction h with
  | ended hReturns =>
      cases outcome hQueued with
      | ended _ _ hClosed => exact hClosed
      | thrown _ _ _ hClosed => exact hClosed
      | token _ _ hOther hType => exact absurd (congrArg Prod.fst (hReturns.unique hOther)) (by rintro ⟨⟩; exact hType rfl)
      | stuck hNever => exact absurd hReturns (hNever _)
  | thrown hReturns =>
      cases outcome hQueued with
      | ended _ _ hClosed => exact hClosed
      | thrown _ _ _ hClosed => exact hClosed
      | token _ _ hOther => exact absurd (congrArg Prod.fst (hReturns.unique hOther)) nofun
      | stuck hNever => exact absurd hReturns (hNever _)
  | call hReturns hType _ _ ih =>
      cases outcome hQueued with
      | ended _ _ hClosed => exact hClosed
      | thrown _ _ _ hClosed => exact hClosed
      | token _ _ hOther _ _ hQueue hSame =>
          cases hReturns.unique hOther
          exact fun hOpen => ih hQueue (hSame.mp hOpen)
      | stuck hNever => exact absurd hReturns (hNever _)

theorem queued_start (text : Text) : Queued (start text) := fun _ hToken => absurd hToken List.not_mem_nil

/-- The calls come to an end exactly if the stream does not end in a comment. -/
theorem finishes_iff (text : Text) : Finishes (start text) ↔ ¬EndsOpen .code text :=
  ⟨fun h => h.closed (queued_start text), finishes_of_closed (queued_start text)⟩

/-- A quest whose last line is a comment. -/
theorem not_finishes_lastLine : ¬Finishes (start "main // end".toList) := fun h =>
  h.closed (queued_start _) (by decide)

end Calls

end Etheos.EOPlus.Lexer
