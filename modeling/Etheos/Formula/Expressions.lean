import Etheos.Formula.Rpn
import Mathlib.Tactic.Linarith

/-! Formulas as expressions: what an expression stands for, how it is written in postfix,
and which ones are read as they were meant. -/
namespace Etheos.Formulas

open General General.Postfix
open QuestStates (Text toText tdparse tdparse_toText)

/-- The operators whose results are exact. -/
inductive Op
  | add | sub | mul | and | or | xor | not | min | max | ceil | floor | lt | lte | eq | gte | gt | iif
  deriving Repr, DecidableEq

namespace Op

abbrev arity : Op → Nat
  | not | ceil | floor => 1
  | iif => 3
  | _ => 2

def name : Op → Text
  | add => "add".toList
  | sub => "sub".toList
  | mul => "mul".toList
  | and => "and".toList
  | or => "or".toList
  | xor => "xor".toList
  | not => "not".toList
  | min => "min".toList
  | max => "max".toList
  | ceil => "ceil".toList
  | floor => "floor".toList
  | lt => "lt".toList
  | lte => "lte".toList
  | eq => "eq".toList
  | gte => "gte".toList
  | gt => "gt".toList
  | iif => "iif".toList

/-- An operator without a symbol is written by its name. -/
def symbol : Op → Text
  | add => ['+']
  | sub => ['-']
  | mul => ['*']
  | and => ['&']
  | or => ['|']
  | xor => ['^']
  | not => ['~']
  | lt => ['<']
  | lte => ['<', '=']
  | eq => ['=']
  | gte => ['>', '=']
  | gt => ['>']
  | iif => ['?']
  | op => op.name

/-- Comparisons leave room for an error of `rpnCmpEpsilon`. -/
def meaning : (op : Op) → (Fin op.arity → ℚ) → ℚ
  | add, x => x 0 + x 1
  | sub, x => x 0 - x 1
  | mul, x => x 0 * x 1
  | and, x => (toBits (x 0) &&& toBits (x 1)).toInt
  | or, x => (toBits (x 0) ||| toBits (x 1)).toInt
  | xor, x => (toBits (x 0) ^^^ toBits (x 1)).toInt
  | not, x => (~~~toBits (x 0)).toInt
  | min, x => Min.min (x 0) (x 1)
  | max, x => Max.max (x 0) (x 1)
  | ceil, x => ⌈x 0⌉
  | floor, x => ⌊x 0⌋
  | lt, x => ofBool (rpnCmpEpsilon < x 1 - x 0)
  | lte, x => ofBool (x 0 - x 1 ≤ rpnCmpEpsilon)
  | eq, x => ofBool (|x 0 - x 1| ≤ rpnCmpEpsilon2)
  | gte, x => ofBool (x 1 - x 0 ≤ rpnCmpEpsilon)
  | gt, x => ofBool (rpnCmpEpsilon < x 0 - x 1)
  | iif, x => if ⌊x 0 + 1 / 2⌋ ≠ 0 then x 1 else x 2

end Op

/-- A word that stands for a number. -/
structure Variable (vars : Text → Option ℚ) where
  name : Text
  value : ℚ
  word : name ≠ [] ∧ ' ' ∉ name
  bound : vars name = some value

inductive Leaf (vars : Text → Option ℚ)
  | literal (n : Int)
  | var (v : Variable vars)

/-- An operator and whether its symbol is written for it. -/
abbrev Node := Op × Bool

abbrev Node.arity (node : Node) : Nat := node.1.arity

abbrev Tree (vars : Text → Option ℚ) := Term Node.arity (Leaf vars)

section Trees

variable {vars : Text → Option ℚ}

def Leaf.text : Leaf vars → Text
  | literal n => toText n
  | var v => v.name

def Leaf.value : Leaf vars → ℚ
  | literal n => n
  | var v => v.value

def Node.text (node : Node) : Text := if node.2 then node.1.symbol else node.1.name

def Tree.text (tree : Tree vars) : Text := joined (tree.write Leaf.text Node.text)

def Tree.value (tree : Tree vars) : ℚ := Term.value Leaf.value (fun node => node.1.meaning) tree

/-- A numeral is no variable of another value, and no operator is found for a variable. -/
def Leaf.Readable : Leaf vars → Prop
  | literal n => 0 ≤ n ∧ ∀ x, vars (toText n) = some x → x = n
  | var v => ∀ f ∈ rpnEvalFuncs, ¬f.Matches v.name

/-- The symbols of two comparisons begin with those of others, which differ where the
arguments do not. -/
def Node.Readable : (node : Node) → (Fin node.arity → ℚ) → Prop
  | (.lte, true), x | (.gte, true), x => rpnCmpEpsilon < |x 0 - x 1|
  | _, _ => True

def Tree.Readable (tree : Tree vars) : Prop :=
  Term.Everywhere Leaf.value (fun node => node.1.meaning) Leaf.Readable Node.Readable tree

end Trees

section Operators

variable (inexact : RpnFunc → List ℚ → ℚ)

def Op.func : Op → RpnFunc
  | add => .add
  | sub => .sub
  | mul => .mul
  | and => .and
  | or => .or
  | xor => .xor
  | not => .not
  | min => .min
  | max => .max
  | ceil => .ceil
  | floor => .floor
  | lt => .lt
  | lte => .lte
  | eq => .eq
  | gte => .gte
  | gt => .gt
  | iif => .iif

theorem ofBool_congr {p q : Prop} [Decidable p] [Decidable q] (h : p ↔ q) : ofBool p = ofBool q := if_congr h rfl rfl

theorem near_iff (x y e : ℚ) : x ≥ y - e ∧ x ≤ y + e ↔ |x - y| ≤ e := by
  rw [abs_sub_le_iff, and_comm, ge_iff_le, sub_le_comm, sub_le_iff_le_add', sub_le_iff_le_add']

/-- The functions compute what the operators stand for. -/
theorem call_func (op : Op) (x : Fin op.arity → ℚ) : op.func.call inexact (List.ofFn x) = op.meaning x := by
  cases op with
  | lt => exact ofBool_congr lt_sub_comm
  | lte => exact ofBool_congr sub_le_iff_le_add'.symm
  | eq => exact ofBool_congr (near_iff ..)
  | gte => exact ofBool_congr sub_le_comm
  | gt => exact ofBool_congr lt_sub_iff_add_lt'.symm
  | min => exact ((min_comm _ _).trans (min_def_lt _ _)).symm
  | max => exact (max_def_lt _ _).symm
  | _ => rfl

theorem find_name (op : Op) :
    ∃ f, findFunc op.name = some f ∧ f.args = op.arity ∧ f.func = op.func := by
  cases op
  all_goals exact ⟨_, rfl, rfl, rfl⟩

theorem find_symbol {op : Op} (hOp : op ≠ .lte ∧ op ≠ .gte) :
    ∃ f, findFunc op.symbol = some f ∧ f.args = op.arity ∧ f.func = op.func := by
  cases op
  case lte => exact absurd rfl hOp.1
  case gte => exact absurd rfl hOp.2
  all_goals exact ⟨_, rfl, rfl, rfl⟩

theorem ofBool_inj {p q : Prop} [Decidable p] [Decidable q] : ofBool p = ofBool q ↔ (p ↔ q) := by
  constructor
  · intro h
    by_cases hp : p
    · by_cases hq : q
      · exact ⟨fun _ => hq, fun _ => hp⟩
      · rw [ofBool, if_pos hp, ofBool, if_neg hq] at h
        exact absurd h one_ne_zero
    · by_cases hq : q
      · rw [ofBool, if_neg hp, ofBool, if_pos hq] at h
        exact absurd h zero_ne_one
      · exact ⟨fun h => absurd h hp, fun h => absurd h hq⟩
  · exact ofBool_congr

/-- A comparison that is taken for a narrower one differs from it where its arguments are close. -/
theorem narrow_iff (x y : ℚ) : (x < y - rpnCmpEpsilon ↔ x - y ≤ rpnCmpEpsilon) ↔ rpnCmpEpsilon < |x - y| := by
  have hPos : 0 < rpnCmpEpsilon := by norm_num [rpnCmpEpsilon]
  rw [lt_abs, neg_sub]
  constructor
  · intro h
    rcases lt_or_ge rpnCmpEpsilon (x - y) with hGreater | hLess
    · exact .inl hGreater
    · exact .inr (lt_sub_comm.mp (h.mpr hLess))
  · rintro (hGreater | hLess)
    · exact ⟨fun h => by linarith, fun h => absurd h (not_le.mpr hGreater)⟩
    · exact ⟨fun _ => by linarith, fun _ => by linarith⟩

theorem lte_heard (x y : ℚ) : ofBool (x < y - rpnCmpEpsilon) = ofBool (x - y ≤ rpnCmpEpsilon) ↔
    rpnCmpEpsilon < |x - y| :=
  ofBool_inj.trans (narrow_iff x y)

theorem gte_heard (x y : ℚ) : ofBool (x > y + rpnCmpEpsilon) = ofBool (y - x ≤ rpnCmpEpsilon) ↔
    rpnCmpEpsilon < |x - y| := by
  rw [ofBool_inj, abs_sub_comm, ← narrow_iff y x, gt_iff_lt, lt_sub_iff_add_lt]

/-- What is found for an operator computes its meaning exactly if it is readable. -/
theorem find_node (node : Node) :
    ∃ f, findFunc node.text = some f ∧ f.args = node.arity ∧ ∀ x : Fin node.arity → ℚ,
      f.func.call inexact (List.ofFn x) = node.1.meaning x ↔ node.Readable x := by
  obtain ⟨op, symbol⟩ := node
  have hPlain {f : RpnEvalFunc} (hFunc : f.func = op.func) (x : Fin op.arity → ℚ) :
      f.func.call inexact (List.ofFn x) = op.meaning x := by rw [hFunc, call_func]
  cases symbol with
  | false =>
      obtain ⟨f, hFound, hArgs, hFunc⟩ := find_name op
      refine ⟨f, hFound, hArgs, fun x => ⟨fun _ => ?_, fun _ => hPlain hFunc x⟩⟩
      cases op
      all_goals trivial
  | true =>
      by_cases hOp : op ≠ .lte ∧ op ≠ .gte
      · obtain ⟨f, hFound, hArgs, hFunc⟩ := find_symbol hOp
        refine ⟨f, hFound, hArgs, fun x => ⟨fun _ => ?_, fun _ => hPlain hFunc x⟩⟩
        cases op
        case lte => exact absurd rfl hOp.1
        case gte => exact absurd rfl hOp.2
        all_goals trivial
      · obtain rfl | rfl : op = .lte ∨ op = .gte := by
          by_contra hOther
          exact hOp (not_or.mp hOther)
        · exact ⟨_, rfl, rfl, fun x => lte_heard _ _⟩
        · exact ⟨_, rfl, rfl, fun x => gte_heard _ _⟩

end Operators

section Reading

variable {inexact : RpnFunc → List ℚ → ℚ} {vars : Text → Option ℚ}

theorem find_number {tok : Text} {c : Char} (hHead : tok.head? = some c) (hDigit : c.isDigit) :
    findFunc tok = none := by
  have hTable : ∀ f ∈ rpnEvalFuncs, f.op.isDigit = false ∧ f.name.head?.all (!·.isDigit) := by decide
  rw [findFunc, List.find?_eq_none]
  intro f hf hMatches
  obtain ⟨hOp, hName⟩ := hTable f hf
  rcases of_decide_eq_true hMatches with rfl | ⟨-, hFirst⟩
  · rw [hHead] at hName
    exact absurd hDigit (by simpa using hName)
  · cases hHead.symm.trans hFirst
    rw [hOp] at hDigit
    cases hDigit

theorem find_literal {n : Int} (hn : 0 ≤ n) : findFunc (toText n) = none := by
  have hText : toText n = Nat.toDigits 10 n.natAbs := if_neg (Int.not_lt.mpr hn)
  obtain ⟨c, digits, hDigits⟩ := List.exists_cons_of_ne_nil (hText ▸ Nat.toDigits_ne_nil)
  refine find_number (c := c) (by rw [hDigits]; rfl) ?_
  exact QuestStates.digits_isDigit _ c (hText ▸ hDigits ▸ List.mem_cons_self)

theorem find_negative {n : Int} (hn : n < 0) : ∃ f, findFunc (toText n) = some f := by
  have hText : toText n = '-' :: Nat.toDigits 10 n.natAbs := if_pos hn
  rw [hText]
  exact Option.isSome_iff_exists.mp (List.find?_isSome.mpr ⟨_, List.mem_cons_of_mem _ List.mem_cons_self,
    decide_eq_true (.inr ⟨by decide, rfl⟩)⟩)

theorem step_leaf (leaf : Leaf vars) (hLeaf : leaf.Readable) (argstack : List ℚ) :
    rpnStep inexact vars leaf.text argstack = some (leaf.value :: argstack) := by
  cases leaf with
  | literal n =>
      obtain ⟨hSign, hNumeral⟩ := hLeaf
      have hValue : (vars (toText n)).getD (tdparse (toText n)) = n := by
        cases hVar : vars (toText n) with
        | none => exact tdparse_toText n
        | some x => exact hNumeral x hVar
      rw [Leaf.text, rpnStep_number (find_literal hSign), hValue]
      rfl
  | var v =>
      have hOther : findFunc v.name = none :=
        List.find?_eq_none.mpr fun f hf hMatches => hLeaf f hf (of_decide_eq_true hMatches)
      rw [Leaf.text, rpnStep_number hOther, v.bound]
      rfl

theorem result_leaf (leaf : Leaf vars) (h : result (rpnStep inexact vars) [leaf.text] = some leaf.value) :
    leaf.Readable := by
  have hFound : findFunc leaf.text = none := by
    by_contra hSome
    obtain ⟨f, hf⟩ := Option.ne_none_iff_exists'.mp hSome
    rw [result, exec_single, rpnStep_underflow hf] at h
    cases h
  cases leaf with
  | literal n =>
      refine ⟨?_, fun x hVar => ?_⟩
      · by_contra hSign
        obtain ⟨f, hf⟩ := find_negative (Int.not_le.mp hSign)
        exact Option.some_ne_none f (hf.symm.trans hFound)
      · rw [result, exec_single, rpnStep_number hFound, Leaf.text, hVar] at h
        exact Option.some.inj h
  | var v => exact fun f hf hMatches => List.find?_eq_none.mp hFound f hf (decide_eq_true hMatches)

theorem step_node (node : Node) (x : Fin node.arity → ℚ) (hNode : node.Readable x) (argstack : List ℚ) :
    rpnStep inexact vars node.text (List.ofFn x ++ argstack) = some (node.1.meaning x :: argstack) := by
  obtain ⟨f, hFound, hArgs, hCall⟩ := find_node inexact node
  rw [rpnStep_func hFound (List.length_ofFn.trans hArgs.symm), (hCall x).mpr hNode]

theorem result_node (node : Node) (x : Fin node.arity → ℚ)
    (h : (rpnStep inexact vars node.text (List.ofFn x)).bind List.head? = some (node.1.meaning x)) :
    node.Readable x := by
  obtain ⟨f, hFound, hArgs, hCall⟩ := find_node inexact node
  have hLength : (List.ofFn x).length = f.args := List.length_ofFn.trans hArgs.symm
  rw [← List.append_nil (List.ofFn x), rpnStep_func hFound hLength] at h
  exact (hCall x).mp (Option.some.inj h)

theorem leaf_word (leaf : Leaf vars) : leaf.text ≠ [] ∧ ' ' ∉ leaf.text := by
  cases leaf with
  | literal n =>
      refine ⟨?_, fun hBlank => QuestStates.ne_of_mem_toText hBlank ⟨by decide, by decide⟩ rfl⟩
      rw [Leaf.text, toText]
      split
      · exact List.cons_ne_nil _ _
      · exact Nat.toDigits_ne_nil
  | var v => exact v.word

theorem node_word (node : Node) : node.text ≠ [] ∧ ' ' ∉ node.text := by
  obtain ⟨op, symbol⟩ := node
  cases symbol
  all_goals
    cases op
    all_goals decide

theorem word_text (tree : Tree vars) : ∀ word ∈ tree.write Leaf.text Node.text, word ≠ [] ∧ ' ' ∉ word := by
  induction tree with
  | leaf v => exact List.forall_mem_singleton.mpr (leaf_word v)
  | apply node args ih =>
      rw [Term.write, List.forall_mem_append]
      refine ⟨fun word hWord => ?_, List.forall_mem_singleton.mpr (node_word node)⟩
      obtain ⟨piece, hPiece, hMem⟩ := List.mem_flatten.mp hWord
      obtain ⟨i, rfl⟩ := List.mem_ofFn.mp (List.mem_reverse.mp hPiece)
      exact ih i word hMem

theorem rpnEval_readable {tree : Tree vars} (hTree : tree.Readable) :
    rpnEval inexact vars (rpnParse tree.text) = .ok tree.value := by
  rw [Tree.text, rpnParse_joined (word_text tree), rpnEval_eq_ok]
  exact result_of_exec (exec_write (@step_leaf inexact vars) step_node hTree [])

/-- An expression and all its parts have their values exactly if what is written in it is taken as
it was meant. -/
theorem rpnEval_parts (inexact : RpnFunc → List ℚ → ℚ) (tree : Tree vars) :
    (∀ part : Tree vars, Term.Part part tree → rpnEval inexact vars (rpnParse part.text) = .ok part.value) ↔
      tree.Readable := by
  have hParts := result_parts (@step_leaf inexact vars) step_node result_leaf result_node tree
  refine Iff.trans (forall_congr' fun part => imp_congr_right fun _ => ?_) hParts
  rw [Tree.text, rpnParse_joined (word_text part), rpnEval_eq_ok]
  rfl

/-- Two is at least two. -/
def twoGteTwo : Tree fun _ => none := .apply (.gte, true) fun _ => .leaf (.literal 2)

/-- The sign `>=` is taken for `>`. -/
theorem rpnEval_twoGteTwo : twoGteTwo.text = "2 2 >=".toList ∧ twoGteTwo.value = 1 ∧
    rpnEval (fun _ _ => 0) (fun _ => none) (rpnParse twoGteTwo.text) = .ok 0 := by
  have hClose : (2 : ℚ) - 2 ≤ rpnCmpEpsilon := by norm_num [rpnCmpEpsilon]
  refine ⟨by decide, if_pos hClose, rpnEval_eq_ok.mpr ?_⟩
  decide +kernel

end Reading

end Etheos.Formulas
