import Etheos.Quest.Printing

/-! Number literals. The loop that reads them tests for an overflow before it multiplies, and with a
bound that leaves out the next digit. -/
namespace Etheos.EOPlus.Lexer

open Characters (IsInt)
open QuestStates (Text)

/-- The largest `int`. -/
def maxInt : Int := 2 ^ 31 - 1

/-- What the test makes of the number, before the next digit is added. -/
def tested (number : Int) : Int := if number > (2 ^ 31 - 1) / 10 then 2 ^ 31 - 1 else number

/-- Neither the multiplication nor the addition of a turn leaves the range of an `int`. -/
def TurnFits (number : Int) (c : Char) : Prop :=
  IsInt (tested number * 10) ∧ IsInt (tested number * 10 + ((c.toNat : Int) - 48))

/-- No turn of the loop overflows. -/
def LoopFits : Int → Text → Prop
  | _, [] => True
  | number, c :: rest => TurnFits number c ∧ LoopFits (addDigit number c) rest

/-- The digits at the front of the stream. -/
def digits (s : Lexer) : Text := s.is.takeWhile ctypeDigit

def value (digits : Text) : Int := (Nat.ofDigitChars 10 digits 0 : Nat)

/-- The number is read as it is or as the largest `int`, and nothing overflows on the way. -/
structure Saturates (s : Lexer) : Prop where
  number : s.readNumber.1 = .of .integer (.int (min (value s.digits) maxInt))
  fits : ∀ c rest, s.digits = c :: rest → LoopFits ((c.toNat : Int) - 48) rest

theorem le_ofDigitChars (digits : Text) (v : Nat) : v ≤ Nat.ofDigitChars 10 digits v := by
  rw [Nat.ofDigitChars_eq_ofDigitChars_zero]
  exact Nat.le_add_right_of_le (Nat.le_mul_of_pos_left _ (Nat.pow_pos (by decide)))

theorem turnFits_iff {v : Nat} {c : Char} (hDigit : c.isDigit) (hv : (v : Int) ≤ maxInt) :
    TurnFits v c ↔ (10 * v + (c.toNat - '0'.toNat) : Nat) ≤ maxInt := by
  obtain ⟨hMin, hMax⟩ := digit_toNat hDigit
  have hZero : '0'.toNat = 48 := rfl
  unfold TurnFits tested maxInt IsInt at *
  split <;> omega

/-- The loop overflows exactly if the whole number is too large. -/
theorem loopFits_iff {digits : Text} (hDigits : ∀ c ∈ digits, c.isDigit) {v : Nat} (hv : (v : Int) ≤ maxInt) :
    LoopFits v digits ↔ (Nat.ofDigitChars 10 digits v : Nat) ≤ maxInt := by
  induction digits generalizing v with
  | nil => simpa [LoopFits] using hv
  | cons c rest ih =>
      obtain ⟨hDigit, hRest⟩ := List.forall_mem_cons.mp hDigits
      have hTurn := turnFits_iff hDigit hv
      rw [LoopFits, Nat.ofDigitChars_cons]
      by_cases hNext : (10 * v + (c.toNat - '0'.toNat) : Nat) ≤ maxInt
      · have hStep : [c].foldl addDigit v = (10 * v + (c.toNat - '0'.toNat) : Nat) := by
          apply foldl_addDigit (by simpa using hDigit) v
          rw [Nat.ofDigitChars_cons, Nat.ofDigitChars_nil]
          unfold maxInt at hNext
          omega
        rw [show addDigit v c = _ from hStep, ih hRest hNext]
        exact and_iff_right (hTurn.mpr hNext)
      · have hMore := le_ofDigitChars rest (10 * v + (c.toNat - '0'.toNat))
        apply iff_of_false
        · exact fun h => hNext (hTurn.mp h.1)
        · intro h
          omega

/-- A number saturates as it should exactly if there is nothing to saturate. -/
theorem saturates_iff (s : Lexer) (hDigits : s.digits ≠ []) : s.Saturates ↔ value s.digits ≤ maxInt := by
  obtain ⟨c, rest, hWord⟩ := List.exists_cons_of_ne_nil hDigits
  have hAll : ∀ d ∈ c :: rest, d.isDigit := by
    rw [← hWord]
    exact List.all_eq_true.mp List.all_takeWhile
  obtain ⟨hFirst, hRest⟩ := List.forall_mem_cons.mp hAll
  obtain ⟨hMin, hMax⟩ := digit_toNat hFirst
  have hZero : '0'.toNat = 48 := rfl
  have hCast : (c.toNat : Int) - 48 = ((c.toNat - '0'.toNat : Nat) : Int) := by omega
  have hValue : value s.digits = (Nat.ofDigitChars 10 rest (c.toNat - '0'.toNat) : Nat) := by
    rw [value, hWord, Nat.ofDigitChars_cons, Nat.mul_zero, Nat.zero_add]
  have hFits : LoopFits ((c.toNat : Int) - 48) rest ↔ value s.digits ≤ maxInt := by
    rw [hValue, hCast]
    apply loopFits_iff hRest
    unfold maxInt
    omega
  constructor
  · intro h
    exact hFits.mp (h.fits c rest hWord)
  · intro hSmall
    refine ⟨?_, fun c' rest' hSame => ?_⟩
    · have hNumber : rest.foldl addDigit ((c.toNat : Int) - 48) = value s.digits := by
        rw [hValue, hCast]
        apply foldl_addDigit hRest
        rw [hValue] at hSmall
        unfold maxInt at hSmall
        omega
      have hRead : (s.getWhile ctypeDigit).1 = c :: rest := by
        rw [getWhile_fst]
        exact hWord
      rw [readNumber, ← Prod.mk.eta (p := s.getWhile ctypeDigit), hRead, min_eq_left hSmall, ← hNumber]
    · obtain ⟨rfl, rfl⟩ := List.cons.inj (hWord.symm.trans hSame)
      exact hFits.mpr hSmall

theorem saturates_largest : (start ("0002147483647;".toList)).Saturates :=
  (saturates_iff _ (by decide)).mpr (by decide)

/-- One more than the largest `int`. -/
theorem tooLarge_counterexample : ¬∀ s : Lexer, s.digits ≠ [] → s.Saturates := by
  intro h
  have hFits := (h (start "2147483648".toList) (by decide)).fits '2' "147483648".toList (by decide)
  simp [LoopFits, TurnFits, tested, addDigit, Characters.toInt, IsInt] at hFits

end Etheos.EOPlus.Lexer
