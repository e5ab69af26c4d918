import Etheos.General.Runs
import Etheos.General.Scatter

/-! The packet processor: base-253 numbers and the body encoding. Packets are
lists of bytes. A raw packet starts with two length bytes, followed by the
action, the family and the payload. -/
namespace Etheos

abbrev Bytes := List UInt8

instance : LawfulBEq Bytes := inferInstance

def packetFInit : UInt8 := 255

def packetAInit : UInt8 := 255

/-- The multipliers the server hands out when a connection is initialized.
Zero stands for a connection without encoding. -/
structure PacketProcessor where
  emultiE : UInt8
  emultiD : UInt8
  deriving Repr, DecidableEq

namespace PacketProcessor

open General.Runs General.Scatter

def max1 : Nat := 253

def max2 : Nat := 64009

def max3 : Nat := 16194277

/-- The digit a byte stands for. 254 marks an absent digit, and a zero byte
reads as 128, before the offset of one is taken off. -/
def digit (b : UInt8) : Nat :=
  let b := if b = 254 then 1 else b
  let b := if b = 0 then 128 else b
  b.toNat - 1

def number (b1 b2 b3 b4 : UInt8) : Nat :=
  digit b4 * max3 + digit b3 * max2 + digit b2 * max1 + digit b1

/-- The four bytes of an unsigned number, least significant digit first. Each
digit is stored in an unsigned char. -/
def eNumber (onumber : Nat) : Bytes :=
  let byte4 := if onumber ≥ max3 then UInt8.ofNat (onumber / max3 + 1) else 254
  let number := if onumber ≥ max3 then onumber % max3 else onumber
  let byte3 := if onumber ≥ max2 then UInt8.ofNat (number / max2 + 1) else 254
  let number := if onumber ≥ max2 then number % max2 else number
  let byte2 := if onumber ≥ max1 then UInt8.ofNat (number / max1 + 1) else 254
  let number := if onumber ≥ max1 then number % max1 else number
  [UInt8.ofNat (number + 1), byte2, byte3, byte4]

def pid (family action : UInt8) : UInt16 := family.toUInt16 ||| (action.toUInt16 <<< 8)

/-- The action and the family of a packet identifier, in this order. -/
def epid (pid : UInt16) : Bytes := [(pid >>> 8).toUInt8, (pid &&& 0xFF).toUInt8]

/-- The loop of `DickWinder` over the remaining string. -/
def dickWinderLoop (emulti : UInt8) (newstr buffer : Bytes) : Bytes → Bytes
  | [] => if buffer.length > 0 then newstr ++ buffer.reverse else newstr
  | c :: str =>
      if c % emulti = 0 then dickWinderLoop emulti newstr (buffer ++ [c]) str
      else if buffer.length > 0 then
        dickWinderLoop emulti (newstr ++ buffer.reverse ++ [c]) [] str
      else dickWinderLoop emulti (newstr ++ [c]) buffer str

def dickWinder (str : Bytes) (emulti : UInt8) : Bytes :=
  if emulti = 0 then str else dickWinderLoop emulti [] [] str

/-- The indices of `while (i < length) i += 2`. -/
def upIndices (i length : Nat) : List Nat := List.range' i ((length + 1 - i) / 2) 2

/-- The indices of `while (i >= low) i -= 2`. -/
def downIndices (low : Nat) : Nat → List Nat
  | 0 => if low = 0 then [0] else []
  | 1 => if low ≤ 1 then [1] else []
  | i + 2 => if low ≤ i + 2 then (i + 2) :: downIndices low i else []

/-- The value the last loop of both directions leaves in a byte. -/
def swapZero (c : UInt8) : UInt8 := if c = 128 then 0 else if c = 0 then 128 else c

/-- `Encode` copies the two length bytes of the wound string, spreads the
remaining bytes over the two index loops, and ends with the loop over the
indices from two on. -/
def encode (proc : PacketProcessor) (rawstr : Bytes) : Bytes :=
  if proc.emultiE = 0 ∨ (rawstr.getD 2 0 = packetAInit ∧ rawstr.getD 3 0 = packetFInit) then rawstr
  else
    let str := dickWinder rawstr proc.emultiE
    let length := str.length
    let newstr := str.take 2 ++ List.replicate (length - 2) 0
    let up := upIndices 2 length
    let i := length - 1
    let i := if length % 2 = 1 then i - 1 else i
    let newstr := scatter newstr (up ++ downIndices 2 i) ((str.drop 2).map (· ^^^ 0x80))
    newstr.take 2 ++ (newstr.drop 2).map swapZero

/-- `Decode` reads a string without its length bytes, and is only reached with
two bytes or more. Its last loop also starts at index two, and so passes over
the first two bytes. -/
def decode (proc : PacketProcessor) (str : Bytes) : Bytes :=
  if proc.emultiD = 0 ∨ (str.getD 0 0 = packetAInit ∧ str.getD 1 0 = packetFInit) then str
  else
    let length := str.length
    let up := upIndices 0 length
    let i := 2 * up.length - 1
    let i := if length % 2 = 1 then i - 2 else i
    let newstr := (gather 0 str (up ++ downIndices 0 i)).map (· ^^^ 0x80)
    let newstr := newstr.take 2 ++ (newstr.drop 2).map swapZero
    dickWinder newstr proc.emultiD

/-- The bytes that a multiplier winds into runs. -/
def windable (emulti c : UInt8) : Bool := c % emulti = 0

theorem dickWinderLoop_eq (emulti : UInt8) (newstr buffer str : Bytes) :
    dickWinderLoop emulti newstr buffer str =
      newstr ++ flush (windable emulti) buffer.reverse str := by
  induction str generalizing newstr buffer with
  | nil => cases buffer <;> simp [dickWinderLoop, flush]
  | cons c str ih =>
      by_cases hc : c % emulti = 0
      · simp [dickWinderLoop, flush, windable, hc, ih]
      · cases buffer with
        | nil => simp [dickWinderLoop, flush, windable, hc, ih]
        | cons b buffer => simp [dickWinderLoop, flush, windable, hc, ih]

/-- Winding reverses the maximal runs of multiples of the multiplier. -/
theorem dickWinder_eq (str : Bytes) {emulti : UInt8} (h : emulti ≠ 0) :
    dickWinder str emulti = reverseRuns (windable emulti) str := by
  simp [dickWinder, h, dickWinderLoop_eq, reverseRuns]

@[simp] theorem dickWinder_length (str : Bytes) (emulti : UInt8) :
    (dickWinder str emulti).length = str.length := by
  by_cases h : emulti = 0
  · simp [dickWinder, h]
  · simp [dickWinder_eq str h]

theorem dickWinder_involutive (str : Bytes) (emulti : UInt8) :
    dickWinder (dickWinder str emulti) emulti = str := by
  by_cases h : emulti = 0
  · simp [dickWinder, h]
  · rw [dickWinder_eq _ h, dickWinder_eq _ h]
    exact reverseRuns_involutive _ str

theorem digit_lt (b : UInt8) : digit b < 255 := by
  have := b.toNat_lt
  simp only [digit]
  split <;> split <;> first | decide | omega

/-- No sum of four digits leaves an unsigned int. -/
theorem number_lt (b1 b2 b3 b4 : UInt8) : number b1 b2 b3 b4 < 2 ^ 32 := by
  have h1 := digit_lt b1
  have h2 := digit_lt b2
  have h3 := digit_lt b3
  have h4 := digit_lt b4
  simp only [number, max1, max2, max3]
  omega

@[simp] theorem digit_absent : digit 254 = 0 := by decide

/-- A digit below 253 is stored with an offset of one, and reads back. -/
@[simp] theorem digit_ofNat {n : Nat} (h : n < 253) : digit (UInt8.ofNat (n + 1)) = n := by
  have hToNat : (UInt8.ofNat (n + 1)).toNat = n + 1 := by
    rw [UInt8.toNat_ofNat']
    omega
  have hAbsent : UInt8.ofNat (n + 1) ≠ 254 := by
    intro h'
    have := congrArg UInt8.toNat h'
    rw [hToNat] at this
    simp at this
    omega
  have hZero : UInt8.ofNat (n + 1) ≠ 0 := by
    intro h'
    have := congrArg UInt8.toNat h'
    rw [hToNat] at this
    simp at this
  simp only [digit, hAbsent, hZero, ↓reduceIte, hToNat, Nat.add_sub_cancel]

@[simp] theorem eNumber_length (n : Nat) : (eNumber n).length = 4 := rfl

/-- A digit is stored in its byte, or is zero and marked as absent. -/
theorem digit_ite {c : Prop} [Decidable c] {d : Nat} (hDigit : d < 253) (hAbsent : ¬c → d = 0) :
    digit (if c then UInt8.ofNat (d + 1) else 254) = d := by
  split
  · exact digit_ofNat hDigit
  · next h => rw [hAbsent h, digit_absent]

/-- The four stored digits, each of them on its own. -/
theorem eNumber_digits (n : Nat) :
    eNumber n =
      [UInt8.ofNat (n % max1 + 1),
        if n ≥ max1 then UInt8.ofNat (n % max2 / max1 + 1) else 254,
        if n ≥ max2 then UInt8.ofNat (n % max3 / max2 + 1) else 254,
        if n ≥ max3 then UInt8.ofNat (n / max3 + 1) else 254] := by
  have hThree : (if n ≥ max3 then n % max3 else n) = n % max3 := by
    split
    · rfl
    · rw [Nat.mod_eq_of_lt (by omega)]
  have hTwo : (if n ≥ max2 then n % max3 % max2 else n % max3) = n % max2 := by
    by_cases h : n ≥ max2
    · rw [if_pos h, Nat.mod_mod_of_dvd n (by decide)]
    · rw [if_neg h]
      simp only [max2, max3] at h ⊢
      omega
  have hOne : (if n ≥ max1 then n % max2 % max1 else n % max2) = n % max1 := by
    by_cases h : n ≥ max1
    · rw [if_pos h, Nat.mod_mod_of_dvd n (by decide)]
    · rw [if_neg h]
      simp only [max1, max2] at h ⊢
      omega
  simp only [eNumber, hThree, hTwo, hOne]

/-- The first bytes of a number that fits into them, with the others absent,
read back as the number. -/
theorem number_eNumber_take {width n : Nat} (hWidth : 1 ≤ width ∧ width ≤ 4)
    (hn : n < 253 ^ width) :
    let bytes := (eNumber n).take width ++ List.replicate (4 - width) 254
    number (bytes.getD 0 254) (bytes.getD 1 254) (bytes.getD 2 254) (bytes.getD 3 254) = n := by
  have hFirst : digit (UInt8.ofNat (n % max1 + 1)) = n % max1 :=
    digit_ofNat (Nat.mod_lt n (by decide))
  have hSecond := digit_ite (c := n ≥ max1) (d := n % max2 / max1)
    (by simp only [max1, max2]; omega) (by simp only [max1, max2]; omega)
  have hThird := digit_ite (c := n ≥ max2) (d := n % max3 / max2)
    (by simp only [max2, max3]; omega) (by simp only [max2, max3]; omega)
  have hBound : n < 253 ^ 4 := hn.trans_le (Nat.pow_le_pow_right (by decide) hWidth.2)
  have hFourth := digit_ite (c := n ≥ max3) (d := n / max3)
    (by simp only [max3]; omega) (by simp only [max3]; omega)
  rw [eNumber_digits]
  obtain rfl | rfl | rfl | rfl : width = 1 ∨ width = 2 ∨ width = 3 ∨ width = 4 := by omega
  all_goals
    simp only [List.take_succ_cons, List.take_zero, List.reduceReplicate, Nat.reduceSub,
      List.cons_append, List.nil_append, List.getD_cons_zero, List.getD_cons_succ, number, hFirst,
      hSecond, hThird, hFourth, digit_absent]
    simp only [max1, max2, max3]
    omega

/-- The first two bytes of a number read as its two low digits. -/
theorem number_eNumber_low (n : Nat) :
    number ((eNumber n).getD 0 0) ((eNumber n).getD 1 0) 254 254 = n % max2 := by
  have hFirst : digit (UInt8.ofNat (n % max1 + 1)) = n % max1 :=
    digit_ofNat (Nat.mod_lt n (by decide))
  have hSecond := digit_ite (c := n ≥ max1) (d := n % max2 / max1)
    (by simp only [max1, max2]; omega) (by simp only [max1, max2]; omega)
  rw [eNumber_digits]
  simp only [List.getD_cons_zero, List.getD_cons_succ, number, hFirst, hSecond, digit_absent]
  simp only [max1, max2, max3]
  omega

end PacketProcessor

end Etheos
