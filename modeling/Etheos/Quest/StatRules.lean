import Etheos.Formula.Expressions
import Etheos.Quest.QuestContext

/-! The rules about the stats of a character. Each is written as a formula, and the formula
decides it. -/
namespace Etheos.Quests

open Characters EOPlus General Formulas
open QuestStates (Text toText tdparse)

/-- The members of a character that formulas know. -/
inductive Stat
  | level | exp | hp | maxhp | tp | maxtp | maxsp | weight | maxweight | karma | mindam | maxdam
  | adjStr | adjIntl | adjWis | adjAgi | adjCon | adjCha | str | intl | wis | agi | con | cha
  | displayStr | displayIntl | displayWis | displayAgi | displayCon | displayCha
  | accuracy | evade | armor | admin | bot | usage | clas | gender | race | hairstyle | haircolor
  | mapid | x | y | direction | sitting | hidden | whispers | goldbank | statpoints | skillpoints
  deriving Repr, DecidableEq

/-- `FormulaVars`, with the names that members go by. -/
def formulaVars : List (String × Stat) :=
  [("level", .level), ("experience", .exp), ("hp", .hp), ("maxhp", .maxhp), ("tp", .tp), ("maxtp", .maxtp),
    ("maxsp", .maxsp), ("weight", .weight), ("maxweight", .maxweight), ("karma", .karma),
    ("mindam", .mindam), ("maxdam", .maxdam), ("str", .adjStr), ("int", .adjIntl), ("wis", .adjWis),
    ("agi", .adjAgi), ("con", .adjCon), ("cha", .adjCha), ("base_str", .str), ("base_int", .intl),
    ("base_wis", .wis), ("base_agi", .agi), ("base_con", .con), ("base_cha", .cha),
    ("display_str", .displayStr), ("display_int", .displayIntl), ("display_wis", .displayWis),
    ("display_agi", .displayAgi), ("display_con", .displayCon), ("display_cha", .displayCha),
    ("accuracy", .accuracy), ("evade", .evade), ("armor", .armor), ("admin", .admin), ("bot", .bot),
    ("usage", .usage), ("class", .clas), ("gender", .gender), ("race", .race), ("hairstyle", .hairstyle),
    ("haircolor", .haircolor), ("mapid", .mapid), ("x", .x), ("y", .y), ("direction", .direction),
    ("sitting", .sitting), ("hidden", .hidden), ("whispers", .whispers), ("goldbank", .goldbank),
    ("statpoints", .statpoints), ("skillpoints", .skillpoints)]

/-- The values of all members of a character. -/
abbrev Character := Stat → Int

def Character.vars (character : Character) (name : Text) : Option ℚ :=
  (formulaVars.lookup (String.ofList name)).map fun stat => (character stat : ℚ)

section Evaluation

variable (inexact : RpnFunc → List ℚ → ℚ)

/-- `rpn_char_eval`. The result is used as a truth value. -/
def rpnCharEval (character : Character) (tokens : List Text) : Reaction :=
  match rpnEval inexact character.vars tokens with
  | .ok x => ⟨if x = 0 then 0 else 1, [], none⟩
  | .error what => ⟨0, [], some what⟩

/-- Formulas are evaluated for the character as it is at the time. -/
def Environment.withFormulas (env : Environment) (characters : Nat → ContextId → Character) : Environment :=
  fun now this request =>
    match request with
    | .formula tokens => rpnCharEval inexact (characters now this) (tokens.map String.toList)
    | .formulaText text => rpnCharEval inexact (characters now this) (rpnParse text.toList)
    | request => env now this request

end Evaluation

/-- An integer as an argument. -/
def number (n : Int) : Variant := ⟨n, String.ofList (toText n)⟩

section Stack

variable {inexact : RpnFunc → List ℚ → ℚ} {character : Character} {name : String} {stat : Stat}

theorem vars_eq (hStat : formulaVars.lookup name = some stat) :
    character.vars name.toList = some (character stat : ℚ) := by
  rw [Character.vars, String.ofList_toList, hStat]
  rfl

theorem mem_of_lookup (hStat : formulaVars.lookup name = some stat) : (name, stat) ∈ formulaVars := by
  obtain ⟨before, after, hSplit, -⟩ := List.lookup_eq_some_iff.mp hStat
  rw [hSplit]
  exact List.mem_append_right before List.mem_cons_self

/-- No stat has the name of an operator or begins with one, and none is a numeral. -/
theorem formulaVars_words : ∀ entry ∈ formulaVars, (entry.1.toList ≠ [] ∧ ' ' ∉ entry.1.toList) ∧
    (∀ f ∈ rpnEvalFuncs, ¬f.Matches entry.1.toList) ∧ entry.1.toList.head?.all (!·.isDigit) := by
  decide +kernel

theorem push_stat (hStat : formulaVars.lookup name = some stat) (argstack : List ℚ) :
    rpnStep inexact character.vars name.toList argstack = some ((character stat : ℚ) :: argstack) := by
  obtain ⟨hWord, hOther, -⟩ := formulaVars_words _ (mem_of_lookup hStat)
  exact step_leaf (.var ⟨name.toList, character stat, hWord, vars_eq hStat⟩) hOther argstack

theorem vars_number (n : Int) (hn : 0 ≤ n) : character.vars (toText n) = none := by
  have hText : toText n = Nat.toDigits 10 n.natAbs := if_neg (Int.not_lt.mpr hn)
  obtain ⟨c, digits, hDigits⟩ := List.exists_cons_of_ne_nil (hText ▸ Nat.toDigits_ne_nil)
  have hDigit : c.isDigit := QuestStates.digits_isDigit _ c (hText ▸ hDigits ▸ List.mem_cons_self)
  unfold Character.vars
  cases hFound : formulaVars.lookup (String.ofList (toText n)) with
  | none => rfl
  | some stat =>
      have hName := (formulaVars_words _ (mem_of_lookup hFound)).2.2
      simp [hDigits, hDigit] at hName

theorem push_number {n : Int} (hn : 0 ≤ n) (argstack : List ℚ) :
    rpnStep inexact character.vars (number n).string.toList argstack = some ((n : ℚ) :: argstack) := by
  rw [number, String.toList_ofList]
  have hReadable : (Leaf.literal n : Leaf character.vars).Readable := by
    refine ⟨hn, fun x hVar => ?_⟩
    rw [vars_number n hn] at hVar
    cases hVar
  exact step_leaf _ hReadable argstack

/-- The sign of a number is taken for a subtraction. -/
theorem underflow_number {n : Int} (hn : n < 0) (tokens : List Text) :
    rpnEval inexact character.vars ((number n).string.toList :: tokens) = .error "RPN Stack underflow" := by
  obtain ⟨f, hFound⟩ := find_negative hn
  rw [number, String.toList_ofList, rpnEval, Postfix.result, Postfix.exec_cons, rpnStep_underflow hFound]
  rfl

end Stack

section Comparisons

theorem ofBool_ne_zero {p : Prop} [Decidable p] : ofBool p ≠ 0 ↔ p := by
  unfold ofBool
  split
  · simp [*]
  · simp [*]

/-- Room for an error makes no difference between integers. -/
theorem add_lt_iff {e : ℚ} (hZero : 0 ≤ e) (hOne : e < 1) (m n : Int) : (m : ℚ) + e < n ↔ m < n := by
  constructor
  · intro h
    have hCast : (m : ℚ) < n := by linarith
    exact_mod_cast hCast
  · intro h
    have hCast : (m : ℚ) + 1 ≤ n := by exact_mod_cast h
    linarith

theorem epsilon_small : 0 ≤ rpnCmpEpsilon ∧ rpnCmpEpsilon < 1 := by
  norm_num [rpnCmpEpsilon]

theorem epsilon2_small : 0 ≤ rpnCmpEpsilon2 ∧ rpnCmpEpsilon2 < 1 := by
  norm_num [rpnCmpEpsilon2, rpnCmpEpsilon]

variable (m n : Int)

theorem gt_integers : (m : ℚ) > n + rpnCmpEpsilon ↔ n < m :=
  add_lt_iff epsilon_small.1 epsilon_small.2 n m

theorem lt_integers : (m : ℚ) < n - rpnCmpEpsilon ↔ m < n :=
  lt_sub_iff_add_lt.trans (add_lt_iff epsilon_small.1 epsilon_small.2 m n)

theorem gte_integers : (m : ℚ) ≥ n - rpnCmpEpsilon ↔ n ≤ m := by
  rw [ge_iff_le, ← not_lt, lt_integers, not_lt]

theorem lte_integers : (m : ℚ) ≤ n + rpnCmpEpsilon ↔ m ≤ n := by
  rw [← not_lt, ← gt_iff_lt, gt_integers, not_lt]

theorem eq_integers : (m : ℚ) ≥ n - rpnCmpEpsilon2 ∧ (m : ℚ) ≤ n + rpnCmpEpsilon2 ↔ m = n := by
  have hLower : (m : ℚ) < n - rpnCmpEpsilon2 ↔ m < n :=
    lt_sub_iff_add_lt.trans (add_lt_iff epsilon2_small.1 epsilon2_small.2 m n)
  have hUpper : (n : ℚ) + rpnCmpEpsilon2 < m ↔ n < m := add_lt_iff epsilon2_small.1 epsilon2_small.2 n m
  rw [ge_iff_le, ← not_lt, ← not_lt, hLower, hUpper]
  omega

theorem and_ne_zero (p q : Prop) [Decidable p] [Decidable q] :
    RpnFunc.call (fun _ _ => 0) .and [ofBool p, ofBool q] ≠ 0 ↔ p ∧ q := by
  have hOne : toBits 1 = 1#32 := by norm_num [toBits]
  have hZero : toBits 0 = 0#32 := by norm_num [toBits]
  by_cases hp : p
  · by_cases hq : q
    · simp [RpnFunc.call, ofBool, hp, hq, hOne]
    · simp [RpnFunc.call, ofBool, hp, hq, hOne, hZero]
  · simp [RpnFunc.call, ofBool, hp, hZero]

end Comparisons

section Formulas

variable {inexact : RpnFunc → List ℚ → ℚ} {character : Character} {name : String} {stat : Stat}

/-- The formula is evaluated, and it is true. -/
def Decides (inexact : RpnFunc → List ℚ → ℚ) (character : Character) (tokens : List String) : Prop :=
  ∃ x, rpnEval inexact character.vars (tokens.map String.toList) = .ok x ∧ x ≠ 0

theorem decides_iff {tokens : List String} {x : ℚ}
    (h : Postfix.exec (rpnStep inexact character.vars) (tokens.map String.toList) [] = some [x]) :
    Decides inexact character tokens ↔ x ≠ 0 := by
  have hResult : rpnEval inexact character.vars (tokens.map String.toList) = .ok x :=
    rpnEval_eq_ok.mpr (Postfix.result_of_exec h)
  constructor
  · rintro ⟨y, hEval, hTrue⟩
    rw [hResult] at hEval
    cases hEval
    exact hTrue
  · intro hTrue
    exact ⟨x, hResult, hTrue⟩

theorem not_decides_negative {n : Int} (hn : n < 0) (tokens : List String) :
    ¬Decides inexact character ((number n).string :: tokens) := by
  rintro ⟨x, hResult, -⟩
  rw [List.map_cons, underflow_number hn] at hResult
  cases hResult

/-- A number, a stat and an operator. -/
theorem exec_comparison (hStat : formulaVars.lookup name = some stat) {n : Int} (hn : 0 ≤ n)
    {operator : String} {f : RpnEvalFunc} (hFound : findFunc operator.toList = some f) (hArgs : f.args = 2)
    (argstack : List ℚ) :
    Postfix.exec (rpnStep inexact character.vars)
        [(number n).string.toList, name.toList, operator.toList] argstack =
      some (f.func.call inexact [(character stat : ℚ), (n : ℚ)] :: argstack) := by
  have hLength : [(character stat : ℚ), (n : ℚ)].length = f.args := hArgs.symm
  rw [Postfix.exec_cons, push_number hn, Option.bind_some, Postfix.exec_cons, push_stat hStat, Option.bind_some,
    Postfix.exec_single]
  exact rpnStep_func hFound hLength argstack

theorem decides_comparison (hStat : formulaVars.lookup name = some stat) {n : Int} (hn : 0 ≤ n)
    {operator : String} {f : RpnEvalFunc} (hFound : findFunc operator.toList = some f) (hArgs : f.args = 2) :
    Decides inexact character [(number n).string, name, operator] ↔
      f.func.call inexact [(character stat : ℚ), (n : ℚ)] ≠ 0 :=
  decides_iff (exec_comparison hStat hn hFound hArgs [])

theorem decides_is (hStat : formulaVars.lookup name = some stat) {n : Int} (hn : 0 ≤ n) :
    Decides inexact character [(number n).string, name, "="] ↔ character stat = n := by
  have hFound : findFunc "=".toList = some ⟨'=', "eq".toList, 2, .eq⟩ := rfl
  rw [decides_comparison hStat hn hFound rfl, ← eq_integers]
  exact ofBool_ne_zero

theorem decides_greater (hStat : formulaVars.lookup name = some stat) {n : Int} (hn : 0 ≤ n) :
    Decides inexact character [(number n).string, name, ">"] ↔ n < character stat := by
  have hFound : findFunc ">".toList = some ⟨'>', "gt".toList, 2, .gt⟩ := rfl
  rw [decides_comparison hStat hn hFound rfl, ← gt_integers]
  exact ofBool_ne_zero

theorem decides_less (hStat : formulaVars.lookup name = some stat) {n : Int} (hn : 0 ≤ n) :
    Decides inexact character [(number n).string, name, "<"] ↔ character stat < n := by
  have hFound : findFunc "<".toList = some ⟨'<', "lt".toList, 2, .lt⟩ := rfl
  rw [decides_comparison hStat hn hFound rfl, ← lt_integers]
  exact ofBool_ne_zero

theorem decides_between (hStat : formulaVars.lookup name = some stat) {low high : Int} (hLow : 0 ≤ low)
    (hHigh : 0 ≤ high) :
    Decides inexact character
        [(number low).string, name, "gte", (number high).string, name, "lte", "&"] ↔
      low ≤ character stat ∧ character stat ≤ high := by
  let above : ℚ := RpnFunc.call inexact .gte [(character stat : ℚ), (low : ℚ)]
  let below : ℚ := RpnFunc.call inexact .lte [(character stat : ℚ), (high : ℚ)]
  have hAnd : findFunc "&".toList = some ⟨'&', "and".toList, 2, .and⟩ := rfl
  have hGte : findFunc "gte".toList = some ⟨' ', "gte".toList, 2, .gte⟩ := rfl
  have hLte : findFunc "lte".toList = some ⟨' ', "lte".toList, 2, .lte⟩ := rfl
  have hTwo : [below, above].length = 2 := rfl
  have hRun : Postfix.exec (rpnStep inexact character.vars)
      ([(number low).string, name, "gte", (number high).string, name, "lte", "&"].map String.toList) [] =
      some [RpnFunc.call inexact .and [below, above]] := by
    have hSplit : [(number low).string, name, "gte", (number high).string, name, "lte", "&"].map String.toList =
        [(number low).string.toList, name.toList, "gte".toList] ++
          ([(number high).string.toList, name.toList, "lte".toList] ++ ["&".toList]) := rfl
    rw [hSplit, Postfix.exec_append, exec_comparison hStat hLow hGte rfl, Option.bind_some, Postfix.exec_append,
      exec_comparison hStat hHigh hLte rfl, Option.bind_some, Postfix.exec_single]
    exact rpnStep_func hAnd hTwo []
  rw [decides_iff hRun, and_comm, ← lte_integers, ← gte_integers]
  exact and_ne_zero _ _

end Formulas

section Rules

variable (inexact : RpnFunc → List ℚ → ℚ) (files : Files) (env : Environment)
  (characters : Nat → ContextId → Character) (v : Virtual Memory) (this : ContextId) (s : Runtime Memory)

/-- `CheckRule` says that the rule is fulfilled. -/
def Fulfilled (function : String) (args : List Variant) : Prop :=
  ∃ s', checkRuleOf files (env.withFormulas inexact characters) v this ⟨function, args⟩ s = .ok true s'

/-- What is asked of the rules about one stat, for two numbers. -/
structure StatOrder (name : Variant) (low high : Int) : Prop where
  statis_or : Fulfilled inexact files env characters v this s "statis" [name, number low] ∨
    Fulfilled inexact files env characters v this s "statgreater" [name, number low] ∨
    Fulfilled inexact files env characters v this s "statless" [name, number low]
  not_is_greater : ¬(Fulfilled inexact files env characters v this s "statis" [name, number low] ∧
    Fulfilled inexact files env characters v this s "statgreater" [name, number low])
  not_is_less : ¬(Fulfilled inexact files env characters v this s "statis" [name, number low] ∧
    Fulfilled inexact files env characters v this s "statless" [name, number low])
  not_greater_less : ¬(Fulfilled inexact files env characters v this s "statgreater" [name, number low] ∧
    Fulfilled inexact files env characters v this s "statless" [name, number low])
  between : Fulfilled inexact files env characters v this s "statbetween" [name, number low, number high] ↔
    ¬Fulfilled inexact files env characters v this s "statless" [name, number low] ∧
      ¬Fulfilled inexact files env characters v this s "statgreater" [name, number high]

/-- The rule `statnot` is fulfilled where `statis` is not. -/
def Negates (name : Variant) (n : Int) : Prop :=
  Fulfilled inexact files env characters v this s "statnot" [name, number n] ↔
    ¬Fulfilled inexact files env characters v this s "statis" [name, number n]

end Rules

section Checks

variable {inexact : RpnFunc → List ℚ → ℚ} {files : Files} {env : Environment}
  {characters : Nat → ContextId → Character} {v : Virtual Memory} {this : ContextId} {s : Runtime Memory}

/-- Another request has been made. -/
def asked (s : Runtime Memory) : Runtime Memory :=
  { s with rest := { s.rest with clock := s.rest.clock + 1 } }

theorem ask_answers {request : Request} {answer : Int}
    (h : env s.rest.clock this request = ⟨answer, [], none⟩) : ask env v this request s = .ok answer (asked s) := by
  have hNow : readMemory Memory.clock s = .ok s.rest.clock s := rfl
  unfold ask
  rw [bind_of_ok hNow, h]
  rfl

theorem ask_throws {request : Request} {answer : Int} {what : String}
    (h : env s.rest.clock this request = ⟨answer, [], some what⟩) :
    ask env v this request s = .error (.runtimeError what) (asked s) := by
  have hNow : readMemory Memory.clock s = .ok s.rest.clock s := rfl
  unfold ask
  rw [bind_of_ok hNow, h]
  rfl

theorem ask_formula (tokens : List String) :
    (∃ s', (do return (← ask (env.withFormulas inexact characters) v this (.formula tokens)) ≠ 0 :
      Prog Memory Bool) s = .ok true s') ↔ Decides inexact (characters s.rest.clock this) tokens := by
  have hReaction : env.withFormulas inexact characters s.rest.clock this (.formula tokens) =
      rpnCharEval inexact (characters s.rest.clock this) (tokens.map String.toList) := rfl
  unfold Decides
  cases hEval : rpnEval inexact (characters s.rest.clock this).vars (tokens.map String.toList) with
  | error what =>
      simp only [rpnCharEval, hEval] at hReaction
      simp [bind_of_error (ask_throws hReaction)]
  | ok x =>
      simp only [rpnCharEval, hEval] at hReaction
      rw [bind_of_ok (ask_answers hReaction)]
      constructor
      · rintro ⟨s', hTrue⟩
        refine ⟨x, rfl, fun hZero => ?_⟩
        rw [if_pos hZero] at hTrue
        cases hTrue
      · rintro ⟨y, hSame, hTrue⟩
        cases hSame
        rw [if_neg hTrue]
        exact ⟨asked s, rfl⟩

theorem fulfilled_iff {function : String} {rule : RuleName} (hRule : RuleName.ofString? function = some rule)
    (args : List Variant) : Fulfilled inexact files env characters v this s function args ↔
      (files.quest this).disabled = false ∧
        ∃ s', evaluate (env.withFormulas inexact characters) v this rule args s = .ok true s' := by
  unfold Fulfilled checkRuleOf
  dsimp only
  rw [hRule]
  cases (files.quest this).disabled with
  | true => exact iff_of_false (fun ⟨_, h⟩ => by cases h) (fun h => Bool.noConfusion h.1)
  | false => simp

section Named

variable (stat value : Variant)

theorem fulfilled_comparison {function operator : String} {rule : RuleName}
    (hRule : RuleName.ofString? function = some rule)
    (hFormula : evaluate (env.withFormulas inexact characters) v this rule [stat, value] =
      askFormula (env.withFormulas inexact characters) v this operator [stat, value]) :
    Fulfilled inexact files env characters v this s function [stat, value] ↔
      (files.quest this).disabled = false ∧
        Decides inexact (characters s.rest.clock this) [value.string, stat.string, operator] := by
  rw [fulfilled_iff hRule, hFormula, ← ask_formula]
  rfl

theorem fulfilled_is : Fulfilled inexact files env characters v this s "statis" [stat, value] ↔
    (files.quest this).disabled = false ∧
      Decides inexact (characters s.rest.clock this) [value.string, stat.string, "="] := by
  have hRule : RuleName.ofString? "statis" = some .statis := rfl
  exact fulfilled_comparison stat value hRule rfl

/-- The rule `statnot` is the rule `statis` once more. -/
theorem fulfilled_not : Fulfilled inexact files env characters v this s "statnot" [stat, value] ↔
    (files.quest this).disabled = false ∧
      Decides inexact (characters s.rest.clock this) [value.string, stat.string, "="] := by
  have hRule : RuleName.ofString? "statnot" = some .statnot := rfl
  exact fulfilled_comparison stat value hRule rfl

theorem fulfilled_greater : Fulfilled inexact files env characters v this s "statgreater" [stat, value] ↔
    (files.quest this).disabled = false ∧
      Decides inexact (characters s.rest.clock this) [value.string, stat.string, ">"] := by
  have hRule : RuleName.ofString? "statgreater" = some .statgreater := rfl
  exact fulfilled_comparison stat value hRule rfl

theorem fulfilled_less : Fulfilled inexact files env characters v this s "statless" [stat, value] ↔
    (files.quest this).disabled = false ∧
      Decides inexact (characters s.rest.clock this) [value.string, stat.string, "<"] := by
  have hRule : RuleName.ofString? "statless" = some .statless := rfl
  exact fulfilled_comparison stat value hRule rfl

theorem fulfilled_between (high : Variant) :
    Fulfilled inexact files env characters v this s "statbetween" [stat, value, high] ↔
      (files.quest this).disabled = false ∧ Decides inexact (characters s.rest.clock this)
        [value.string, stat.string, "gte", high.string, stat.string, "lte", "&"] := by
  have hRule : RuleName.ofString? "statbetween" = some .statbetween := rfl
  rw [fulfilled_iff hRule, ← ask_formula]
  rfl

end Named

theorem not_negates (name : Variant) (n : Int) : ¬Negates inexact files env characters v this s name n := by
  unfold Negates
  rw [fulfilled_not, fulfilled_is]
  exact iff_not_self

/-- No rule can be evaluated that begins with the sign of a number. -/
theorem not_order_of_negative (name : Variant) {low : Int} (hLow : low < 0) (high : Int) :
    ¬StatOrder inexact files env characters v this s name low high := by
  intro h
  obtain hIs | hGreater | hLess := h.statis_or
  · exact not_decides_negative hLow _ ((fulfilled_is name (number low)).mp hIs).2
  · exact not_decides_negative hLow _ ((fulfilled_greater name (number low)).mp hGreater).2
  · exact not_decides_negative hLow _ ((fulfilled_less name (number low)).mp hLess).2

theorem order_of_nonneg {name : Variant} {stat : Stat} (hStat : formulaVars.lookup name.string = some stat)
    {low high : Int} (hLow : 0 ≤ low) (hOrder : low ≤ high) (hUse : (files.quest this).disabled = false) :
    StatOrder inexact files env characters v this s name low high := by
  have hHigh : 0 ≤ high := hLow.trans hOrder
  constructor
  · rw [fulfilled_is, fulfilled_greater, fulfilled_less, decides_is hStat hLow, decides_greater hStat hLow,
      decides_less hStat hLow]
    simp only [hUse, true_and]
    omega
  · rw [fulfilled_is, fulfilled_greater, decides_is hStat hLow, decides_greater hStat hLow]
    omega
  · rw [fulfilled_is, fulfilled_less, decides_is hStat hLow, decides_less hStat hLow]
    omega
  · rw [fulfilled_greater, fulfilled_less, decides_greater hStat hLow, decides_less hStat hLow]
    omega
  · rw [fulfilled_between, fulfilled_less, fulfilled_greater, decides_between hStat hLow hHigh,
      decides_less hStat hLow, decides_greater hStat hHigh]
    simp only [hUse, true_and]
    omega

/-- The rule `statnot` is never the opposite of `statis`. The other rules of a stat belong together
exactly if the quest is in use and the numbers are not negative. -/
theorem statRules_iff (inexact : RpnFunc → List ℚ → ℚ) (files : Files) (env : Environment)
    (characters : Nat → ContextId → Character) (v : Virtual Memory) (this : ContextId) (s : Runtime Memory)
    (name : Variant) (stat : Stat) (low high : Int) (hStat : formulaVars.lookup name.string = some stat)
    (hOrder : low ≤ high) :
    ¬(Negates inexact files env characters v this s name low ∧
        StatOrder inexact files env characters v this s name low high) ∧
      (StatOrder inexact files env characters v this s name low high ↔
        (files.quest this).disabled = false ∧ 0 ≤ low) := by
  refine ⟨fun h => not_negates name low h.1, fun h => ?_, fun ⟨hUse, hLow⟩ => order_of_nonneg hStat hLow hOrder hUse⟩
  constructor
  · obtain hIs | hGreater | hLess := h.statis_or
    · exact ((fulfilled_is name (number low)).mp hIs).1
    · exact ((fulfilled_greater name (number low)).mp hGreater).1
    · exact ((fulfilled_less name (number low)).mp hLess).1
  · by_contra hLow
    exact not_order_of_negative name (Int.not_le.mp hLow) high h

/-- A quest without states, under every number. -/
def emptyFiles : Files := fun _ => some ⟨⟨false, []⟩, rfl⟩

/-- Nothing else is asked. -/
def noEnvironment : Environment := fun _ _ _ => ⟨0, [], none⟩

def freshMemory : Runtime Memory :=
  ⟨0, fun _ => ⟨none, "", false⟩, ⟨fun _ => ⟨0, "", [], []⟩, fun _ _ => none, 0, 0, 0, 0⟩, 0, 0, 0⟩

/-- A character of level five, at the numbers five and seven. -/
theorem statRules_level :
    StatOrder (fun _ _ => 0) emptyFiles noEnvironment (fun _ _ _ => 5)
      (questContext emptyFiles noEnvironment 0) ⟨1, 0⟩ freshMemory ⟨0, "level"⟩ 5 7 :=
  (statRules_iff (fun _ _ => 0) emptyFiles noEnvironment (fun _ _ _ => 5)
    (questContext emptyFiles noEnvironment 0) ⟨1, 0⟩ freshMemory ⟨0, "level"⟩ .level 5 7 rfl
    (by decide)).2.mpr ⟨rfl, by decide⟩

/-- The level is five, and at the same time it is not. -/
theorem level_is_and_is_not :
    Fulfilled (fun _ _ => 0) emptyFiles noEnvironment (fun _ _ _ => 5)
        (questContext emptyFiles noEnvironment 0) ⟨1, 0⟩ freshMemory "statis" [⟨0, "level"⟩, number 5] ∧
      Fulfilled (fun _ _ => 0) emptyFiles noEnvironment (fun _ _ _ => 5)
        (questContext emptyFiles noEnvironment 0) ⟨1, 0⟩ freshMemory "statnot" [⟨0, "level"⟩, number 5] ∧
      ¬Negates (fun _ _ => 0) emptyFiles noEnvironment (fun _ _ _ => 5)
        (questContext emptyFiles noEnvironment 0) ⟨1, 0⟩ freshMemory ⟨0, "level"⟩ 5 := by
  have hLevel : formulaVars.lookup (⟨0, "level"⟩ : Variant).string = some .level := rfl
  have hFive : (0 : Int) ≤ 5 := by decide
  rw [fulfilled_is, fulfilled_not, decides_is hLevel hFive]
  exact ⟨⟨rfl, rfl⟩, ⟨rfl, rfl⟩, not_negates _ 5⟩

end Checks

end Etheos.Quests
