import Etheos.General.Postfix
import Etheos.Quest.Saves
import Mathlib.Data.Rat.Floor

/-! Formulas in reverse Polish notation, with exact numbers. -/
namespace Etheos.Formulas

open General
open QuestStates (Text tdparse)

section Parsing

/-- One round of the loop of `rpn_parse`, which begins at the last character. The token is
kept backwards. -/
def parseChar (c : Char) (s : List Text × Text) : List Text × Text :=
  if c ≠ ' ' then (s.1, s.2 ++ [c]) else if s.2 ≠ [] then (s.2.reverse :: s.1, []) else s

/-- The top of the stack comes first. -/
def rpnParse (expr : Text) : List Text :=
  let s := expr.foldr parseChar ([], [])
  if s.2 ≠ [] then s.2.reverse :: s.1 else s.1

end Parsing

inductive RpnFunc
  | add | sub | mul | div | mod | and | or | xor | not | pow | sqrt | log | exp | ln | sin | cos | tan
  | rand | min | max | ceil | round | floor | lt | lte | eq | gte | gt | iif
  deriving Repr, DecidableEq

/-- An operator without a character has a blank for it. -/
structure RpnEvalFunc where
  op : Char
  name : Text
  args : Nat
  func : RpnFunc
  deriving Repr, DecidableEq

def rpnEvalFuncs : List RpnEvalFunc :=
  [⟨'+', "add".toList, 2, .add⟩, ⟨'-', "sub".toList, 2, .sub⟩, ⟨'*', "mul".toList, 2, .mul⟩,
    ⟨'/', "div".toList, 2, .div⟩, ⟨'%', "mod".toList, 2, .mod⟩, ⟨'&', "and".toList, 2, .and⟩,
    ⟨'|', "or".toList, 2, .or⟩, ⟨'^', "xor".toList, 2, .xor⟩, ⟨'~', "not".toList, 1, .not⟩,
    ⟨' ', "pow".toList, 2, .pow⟩, ⟨' ', "sqrt".toList, 1, .sqrt⟩, ⟨' ', "log".toList, 1, .log⟩,
    ⟨' ', "exp".toList, 1, .exp⟩, ⟨' ', "ln".toList, 1, .ln⟩, ⟨' ', "sin".toList, 1, .sin⟩,
    ⟨' ', "cos".toList, 1, .cos⟩, ⟨' ', "tan".toList, 1, .tan⟩, ⟨' ', "rand".toList, 2, .rand⟩,
    ⟨' ', "min".toList, 2, .min⟩, ⟨' ', "max".toList, 2, .max⟩, ⟨' ', "ceil".toList, 1, .ceil⟩,
    ⟨' ', "round".toList, 1, .round⟩, ⟨' ', "floor".toList, 1, .floor⟩, ⟨'<', "lt".toList, 2, .lt⟩,
    ⟨' ', "lte".toList, 2, .lte⟩, ⟨'=', "eq".toList, 2, .eq⟩, ⟨' ', "gte".toList, 2, .gte⟩,
    ⟨'>', "gt".toList, 2, .gt⟩, ⟨'?', "iif".toList, 3, .iif⟩]

/-- The whole name, or the first character. -/
def RpnEvalFunc.Matches (f : RpnEvalFunc) (tok : Text) : Prop :=
  tok = f.name ∨ f.op ≠ ' ' ∧ tok.head? = some f.op

instance (f : RpnEvalFunc) (tok : Text) : Decidable (f.Matches tok) := inferInstanceAs (Decidable (_ ∨ _))

def findFunc (tok : Text) : Option RpnEvalFunc := rpnEvalFuncs.find? fun f => f.Matches tok

section Functions

def rpnCmpEpsilon : ℚ := 1 / 10000

def rpnCmpEpsilon2 : ℚ := rpnCmpEpsilon / 2

/-- `int(std::floor(x + 0.5))`, whose result is open where it is no `int`. -/
def toBits (x : ℚ) : BitVec 32 := BitVec.ofInt 32 ⌊x + 1 / 2⌋

/-- A truth value as a number. -/
def ofBool (p : Prop) [Decidable p] : ℚ := if p then 1 else 0

/-- `inexact` stands for the functions whose results are rounded or random. -/
def RpnFunc.call (inexact : RpnFunc → List ℚ → ℚ) : RpnFunc → List ℚ → ℚ
  | add, [x, y] => x + y
  | sub, [x, y] => x - y
  | mul, [x, y] => x * y
  | and, [x, y] => (toBits x &&& toBits y).toInt
  | or, [x, y] => (toBits x ||| toBits y).toInt
  | xor, [x, y] => (toBits x ^^^ toBits y).toInt
  | not, [x] => (~~~toBits x).toInt
  | min, [x, y] => if y < x then y else x
  | max, [x, y] => if x < y then y else x
  | ceil, [x] => ⌈x⌉
  | round, [x] => ⌊x + 1 / 2⌋
  | floor, [x] => ⌊x⌋
  | lt, [x, y] => ofBool (x < y - rpnCmpEpsilon)
  | lte, [x, y] => ofBool (x ≤ y + rpnCmpEpsilon)
  | eq, [x, y] => ofBool (x ≥ y - rpnCmpEpsilon2 ∧ x ≤ y + rpnCmpEpsilon2)
  | gte, [x, y] => ofBool (x ≥ y - rpnCmpEpsilon)
  | gt, [x, y] => ofBool (x > y + rpnCmpEpsilon)
  | iif, [x, y, z] => if ⌊x + 1 / 2⌋ ≠ 0 then y else z
  | f, args => inexact f args

end Functions

section Evaluation

variable (inexact : RpnFunc → List ℚ → ℚ) (vars : Text → Option ℚ)

def popArgs : Nat → List ℚ → Option (List ℚ × List ℚ)
  | 0, argstack => some ([], argstack)
  | _ + 1, [] => none
  | n + 1, arg :: argstack => (popArgs n argstack).map fun popped => (arg :: popped.1, popped.2)

/-- One round of the loop of `rpn_eval`. -/
def rpnStep (tok : Text) (argstack : List ℚ) : Option (List ℚ) :=
  match findFunc tok with
  | some f => (popArgs f.args argstack).map fun popped => f.func.call inexact popped.1 :: popped.2
  | none => some ((vars tok).getD (tdparse tok) :: argstack)

/-- The formula is not empty. -/
def rpnEval (stack : List Text) : Except String ℚ :=
  match Postfix.result (rpnStep inexact vars) stack with
  | some top => .ok top
  | none => .error "RPN Stack underflow"

end Evaluation

section Lemmas

/-- Words with a blank between them. -/
def joined (words : List Text) : Text := [' '].intercalate words

theorem parse_word {word : Text} (hWord : ' ' ∉ word) (s : List Text × Text) :
    word.foldr parseChar s = (s.1, s.2 ++ word.reverse) := by
  induction word with
  | nil => rw [List.reverse_nil, List.append_nil, List.foldr_nil]
  | cons c word ih =>
      obtain ⟨hFirst, hRest⟩ : ' ' ≠ c ∧ ' ' ∉ word := by
        simpa only [List.mem_cons, not_or] using hWord
      rw [List.foldr_cons, ih hRest, parseChar, if_pos hFirst.symm, List.reverse_cons, List.append_assoc]

/-- A word is what is pushed last. -/
theorem rpnParse_cons {word : Text} (hWord : word ≠ [] ∧ ' ' ∉ word) (rest : Text) :
    rpnParse (word ++ ' ' :: rest) = word :: rpnParse rest := by
  have hBlank : (' ' :: rest).foldr parseChar ([], []) = (rpnParse rest, []) := by
    rw [List.foldr_cons, parseChar, if_neg (not_not.mpr rfl), rpnParse]
    by_cases hEmpty : (rest.foldr parseChar ([], [])).2 = []
    · simp only [hEmpty, ne_eq, not_true_eq_false, if_false]
      exact Prod.ext rfl hEmpty
    · simp only [hEmpty, ne_eq, not_false_eq_true, if_true]
  have hReverse : word.reverse ≠ [] := mt List.reverse_eq_nil_iff.mp hWord.1
  rw [rpnParse, List.foldr_append, hBlank, parse_word hWord.2, List.nil_append]
  dsimp only
  rw [if_pos hReverse, List.reverse_reverse]

theorem rpnParse_single {word : Text} (hWord : word ≠ [] ∧ ' ' ∉ word) : rpnParse word = [word] := by
  have hReverse : word.reverse ≠ [] := mt List.reverse_eq_nil_iff.mp hWord.1
  rw [rpnParse, parse_word hWord.2, List.nil_append]
  dsimp only
  rw [if_pos hReverse, List.reverse_reverse]

theorem rpnParse_joined {words : List Text} (hWords : ∀ word ∈ words, word ≠ [] ∧ ' ' ∉ word) :
    rpnParse (joined words) = words := by
  induction words with
  | nil => rfl
  | cons word words ih =>
      obtain ⟨hFirst, hRest⟩ := List.forall_mem_cons.mp hWords
      cases words with
      | nil =>
          have hSingle : joined [word] = word := List.intercalate_singleton
          rw [hSingle, rpnParse_single hFirst]
      | cons next words =>
          have hJoined : joined (word :: next :: words) = word ++ ' ' :: joined (next :: words) := by
            rw [joined, List.intercalate_cons_cons, List.append_assoc, List.singleton_append, joined]
          rw [hJoined, rpnParse_cons hFirst, ih hRest]

theorem popArgs_append (args argstack : List ℚ) : popArgs args.length (args ++ argstack) = some (args, argstack) := by
  induction args with
  | nil => rfl
  | cons arg args ih =>
      rw [List.length_cons, List.cons_append, popArgs, ih]
      rfl

variable {inexact : RpnFunc → List ℚ → ℚ} {vars : Text → Option ℚ}

theorem rpnEval_eq_ok {stack : List Text} {v : ℚ} :
    rpnEval inexact vars stack = .ok v ↔ Postfix.result (rpnStep inexact vars) stack = some v := by
  unfold rpnEval
  cases Postfix.result (rpnStep inexact vars) stack with
  | none => exact ⟨nofun, nofun⟩
  | some top => exact ⟨fun h => congrArg _ (Except.ok.inj h), fun h => congrArg _ (Option.some.inj h)⟩

theorem rpnStep_func {tok : Text} {f : RpnEvalFunc} (hFound : findFunc tok = some f) {args : List ℚ}
    (hArgs : args.length = f.args) (argstack : List ℚ) :
    rpnStep inexact vars tok (args ++ argstack) = some (f.func.call inexact args :: argstack) := by
  rw [rpnStep, hFound]
  dsimp only
  rw [← hArgs, popArgs_append]
  rfl

theorem rpnStep_number {tok : Text} (hOther : findFunc tok = none) (argstack : List ℚ) :
    rpnStep inexact vars tok argstack = some ((vars tok).getD (tdparse tok) :: argstack) := by
  rw [rpnStep, hOther]

/-- No operator does without an argument. -/
theorem rpnStep_underflow {tok : Text} {f : RpnEvalFunc} (hFound : findFunc tok = some f) :
    rpnStep inexact vars tok [] = none := by
  have hArgs : ∀ f ∈ rpnEvalFuncs, f.args ≠ 0 := by decide
  obtain ⟨n, hn⟩ := Nat.exists_eq_succ_of_ne_zero (hArgs f (List.mem_of_find?_eq_some hFound))
  rw [rpnStep, hFound]
  dsimp only
  rw [hn]
  rfl

end Lemmas

end Etheos.Formulas
