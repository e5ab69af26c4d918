import Mathlib.Data.List.Basic
import Mathlib.Tactic.Common

/-! Texts with literals between quotes, as they are read from the left. -/
namespace General

variable {κ : Type*}

inductive Token (κ : Type*) where
  | plain (c : κ)
  | literal (text : List κ)
  deriving DecidableEq

/-- Where a reader is. After `closing` there may be a second quote, which belongs to the literal. -/
inductive Mode where
  | plain
  | literal
  | closing
  | escaped
  deriving DecidableEq

structure Reading (κ : Type*) where
  tokens : List (Token κ)
  mode : Mode
  text : List κ
  deriving DecidableEq

/-- How literals are written. -/
structure Quoting (κ : Type*) where
  quote : κ
  escape : Option κ
  /-- What the character behind an escape stands for. -/
  unescape : κ → List κ

namespace Token

/-- All but the text of a literal. -/
def shape : Token κ → Option κ
  | .plain c => some c
  | .literal _ => none

end Token

namespace Reading

def start : Reading κ := ⟨[], .plain, []⟩

/-- What is read if there is nothing more. The literals have all to be closed. -/
def finish (r : Reading κ) : Option (List (Token κ)) :=
  match r.mode with
  | .plain => some r.tokens
  | .closing => some (r.tokens ++ [.literal r.text])
  | _ => none

def shape (r : Reading κ) : List (Option κ) × Mode := (r.tokens.map Token.shape, r.mode)

/-- More of the literal. -/
def extend (r : Reading κ) (text : List κ) : Reading κ := { r with text := r.text ++ text }

@[simp] theorem extend_mode (r : Reading κ) (text : List κ) : (r.extend text).mode = r.mode := rfl

@[simp] theorem extend_shape (r : Reading κ) (text : List κ) : (r.extend text).shape = r.shape := rfl

@[simp] theorem extend_nil (r : Reading κ) : r.extend [] = r := by simp [extend]

theorem extend_extend (r : Reading κ) (text more : List κ) :
    (r.extend text).extend more = r.extend (text ++ more) := by
  simp [extend]

end Reading

namespace Quoting

variable [DecidableEq κ] (q : Quoting κ)

def read (r : Reading κ) (c : κ) : Reading κ :=
  match r.mode with
  | .plain => if c = q.quote then ⟨r.tokens, .literal, []⟩ else ⟨r.tokens ++ [.plain c], .plain, []⟩
  | .literal =>
      if c = q.quote then { r with mode := .closing }
      else if q.escape = some c then { r with mode := .escaped }
      else r.extend [c]
  | .closing =>
      if c = q.quote then ⟨r.tokens, .literal, r.text ++ [c]⟩
      else ⟨r.tokens ++ [.literal r.text, .plain c], .plain, []⟩
  | .escaped => ⟨r.tokens, .literal, r.text ++ q.unescape c⟩

def reads (r : Reading κ) (text : List κ) : Reading κ := text.foldl q.read r

theorem reads_append (r : Reading κ) (text more : List κ) : q.reads r (text ++ more) = q.reads (q.reads r text) more :=
  List.foldl_append

variable {q} {r r' : Reading κ}

/-- What a character does to the shape does not depend on the text of a literal. -/
theorem shape_read (h : r.shape = r'.shape) (c : κ) : (q.read r c).shape = (q.read r' c).shape := by
  obtain ⟨hTokens, hMode⟩ := Prod.mk.inj h
  unfold read
  rw [hMode]
  cases r'.mode with
  | plain =>
      dsimp only
      split
      · exact Prod.ext hTokens rfl
      · exact Prod.ext (by simpa [Reading.shape] using hTokens) rfl
  | literal =>
      dsimp only
      split
      · exact Prod.ext hTokens rfl
      · split
        · exact Prod.ext hTokens rfl
        · exact h
  | closing =>
      dsimp only
      split
      · exact Prod.ext hTokens rfl
      · exact Prod.ext (by simpa [Reading.shape, Token.shape] using hTokens) rfl
  | escaped => exact Prod.ext hTokens rfl

theorem shape_reads (h : r.shape = r'.shape) (text : List κ) : (q.reads r text).shape = (q.reads r' text).shape := by
  induction text generalizing r r' with
  | nil => exact h
  | cons c text ih => exact ih (shape_read h c)

/-- The characters that a reader takes for themselves within a literal. -/
theorem read_own (hMode : r.mode = .literal) {c : κ} (hQuote : c ≠ q.quote) (hEscape : q.escape ≠ some c) :
    q.read r c = r.extend [c] := by
  unfold read
  rw [hMode]
  simp only [if_neg hQuote, if_neg hEscape]

theorem read_doubled (hMode : r.mode = .literal) : q.reads r [q.quote, q.quote] = r.extend [q.quote] := by
  obtain ⟨tokens, mode, text⟩ := r
  obtain rfl := hMode
  simp [reads, read, Reading.extend]

theorem read_escaped {escape c : κ} (hEscape : q.escape = some escape) (hQuote : escape ≠ q.quote)
    (hMode : r.mode = .literal) : q.reads r [escape, c] = r.extend (q.unescape c) := by
  obtain ⟨tokens, mode, text⟩ := r
  obtain rfl := hMode
  simp [reads, read, hQuote, hEscape, Reading.extend]

/-- Where each character is read back in a literal, so is each text. -/
theorem reads_flatMap {mask : κ → List κ} {value : κ → κ}
    (hMask : ∀ (r : Reading κ) c, r.mode = .literal → q.reads r (mask c) = r.extend [value c])
    (hMode : r.mode = .literal) (text : List κ) : q.reads r (text.flatMap mask) = r.extend (text.map value) := by
  induction text generalizing r with
  | nil => exact r.extend_nil.symm
  | cons c text ih =>
      rw [List.flatMap_cons, reads_append, hMask r c hMode, ih ((r.extend_mode [value c]).trans hMode),
        Reading.extend_extend]
      rfl

/-- Behind anything that is complete the text is read as these tokens. -/
def Writes (q : Quoting κ) (text : List κ) (tokens : List (Token κ)) : Prop :=
  ∀ (r : Reading κ) before, r.finish = some before → (q.reads r text).finish = some (before ++ tokens)

theorem Writes.append {text more : List κ} {tokens others : List (Token κ)} (h : q.Writes text tokens)
    (hMore : q.Writes more others) : q.Writes (text ++ more) (tokens ++ others) := by
  intro r before hFinish
  rw [reads_append, ← List.append_assoc]
  exact hMore _ _ (h r before hFinish)

theorem read_plain {before : List (Token κ)} (hFinish : r.finish = some before) {c : κ} (h : c ≠ q.quote) :
    q.read r c = ⟨before ++ [.plain c], .plain, []⟩ := by
  obtain ⟨tokens, mode, text⟩ := r
  cases mode with
  | plain =>
      obtain rfl := Option.some.inj hFinish
      simp [read, h]
  | closing =>
      obtain rfl := Option.some.inj hFinish
      simp [read, h]
  | literal => cases hFinish
  | escaped => cases hFinish

/-- A text without quotes is read as it is outside of literals. -/
theorem reads_plain {before : List (Token κ)} (hFinish : r.finish = some before) {text : List κ} (h : q.quote ∉ text)
    (hText : text ≠ []) : q.reads r text = ⟨before ++ text.map .plain, .plain, []⟩ := by
  induction text generalizing r before with
  | nil => exact absurd rfl hText
  | cons c text ih =>
      obtain ⟨hFirst, hRest⟩ := not_or.mp (mt List.mem_cons.mpr h)
      show q.reads (q.read r c) text = _
      rw [read_plain hFinish (Ne.symm hFirst)]
      cases text with
      | nil => rfl
      | cons d text =>
          rw [ih rfl hRest (by simp)]
          simp

theorem Writes.plain {text : List κ} (h : q.quote ∉ text) : q.Writes text (text.map .plain) := by
  intro r before hFinish
  cases text with
  | nil => simpa [reads] using hFinish
  | cons c text =>
      rw [reads_plain hFinish h (by simp)]
      rfl

/-- A literal behind a text that keeps it from the one before. -/
theorem Writes.literal {text masked value : List κ} (h : q.quote ∉ text) (hText : text ≠ [])
    (hMasked : ∀ r : Reading κ, r.mode = .literal → q.reads r masked = r.extend value) :
    q.Writes (text ++ q.quote :: (masked ++ [q.quote])) (text.map .plain ++ [.literal value]) := by
  intro r before hFinish
  rw [reads_append, reads_plain hFinish h hText]
  have hOpen : q.read ⟨before ++ text.map .plain, .plain, []⟩ q.quote =
      ⟨before ++ text.map .plain, .literal, []⟩ := if_pos rfl
  show (q.reads (q.read _ q.quote) (masked ++ [q.quote])).finish = _
  rw [hOpen, reads_append, hMasked _ rfl]
  simp [reads, read, Reading.extend, Reading.finish]

end Quoting

end General
