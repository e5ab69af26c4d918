import Etheos.Packet.Processor

/-! The cursor over the data of a received packet. Handlers read attacker
controlled data through the getters in arbitrary combinations. -/
namespace Etheos

/-- Subtraction of `std::size_t` values. -/
def sizeSub (a b : Nat) : Nat := if b ≤ a then a - b else 2 ^ 64 - (b - a)

/-- The result of an unsuccessful string search. -/
def npos : Nat := 2 ^ 64 - 1

/-- The greatest length of a `std::string`. -/
def stringMaxSize : Nat := 2 ^ 63 - 1

/-- A read outside the data is undefined behaviour. `substr` throws instead
when it is started behind the end. -/
inductive ReadFault where
  | outOfBounds (index : Nat)
  | outOfRange
  deriving Repr, DecidableEq

structure PacketReader where
  data : Bytes
  pos : Nat
  deriving Repr, DecidableEq

def byteAt (data : Bytes) (index : Nat) : Except ReadFault UInt8 :=
  match data[index]? with
  | some b => .ok b
  | none => .error (.outOfBounds index)

/-- `std::copy_n` out of the data, one byte after the other. -/
def copyN (data : Bytes) (pos : Nat) : Nat → Except ReadFault Bytes
  | 0 => .ok []
  | n + 1 => do
      let b ← byteAt data pos
      let rest ← copyN data (pos + 1) n
      return b :: rest

def substr (data : Bytes) (pos length : Nat) : Except ReadFault Bytes :=
  if pos ≤ data.length then .ok ((data.drop pos).take length) else .error .outOfRange

def findFirstOf (data : Bytes) (c : UInt8) (pos : Nat) : Nat :=
  match (data.drop pos).findIdx? (· = c) with
  | some k => pos + k
  | none => npos

namespace PacketReader

open PacketProcessor

/-- A reader starts behind the action and the family. -/
def new (data : Bytes) : PacketReader := ⟨data, 2⟩

def length (r : PacketReader) : Nat := r.data.length

def remaining (r : PacketReader) : Nat := sizeSub r.length r.pos

def action (r : PacketReader) : UInt8 := r.data.getD 0 0

def family (r : PacketReader) : UInt8 := if r.length < 2 then 0 else r.data.getD 1 0

/-- `this->pos += n`. -/
def advance (r : PacketReader) (n : Nat) : PacketReader := { r with pos := r.pos + n }

def getNumber (length : Nat) (r : PacketReader) : Except ReadFault (Nat × PacketReader) := do
  let readLen := min length r.remaining
  let read ← copyN r.data r.pos readLen
  let bytes := read ++ List.replicate (4 - readLen) 254
  return (number (bytes.getD 0 254) (bytes.getD 1 254) (bytes.getD 2 254) (bytes.getD 3 254),
    r.advance readLen)

def getByte (r : PacketReader) : Except ReadFault (UInt8 × PacketReader) := do
  if r.remaining < 1 then return (0, r)
  let ret ← byteAt r.data r.pos
  return (ret, r.advance 1)

def getChar (r : PacketReader) : Except ReadFault (UInt8 × PacketReader) := do
  let (n, r) ← r.getNumber 1
  return (UInt8.ofNat n, r)

def getShort (r : PacketReader) : Except ReadFault (UInt16 × PacketReader) := do
  let (n, r) ← r.getNumber 2
  return (UInt16.ofNat n, r)

def getThree (r : PacketReader) : Except ReadFault (UInt32 × PacketReader) := do
  let (n, r) ← r.getNumber 3
  return (UInt32.ofNat n, r)

def getInt (r : PacketReader) : Except ReadFault (UInt32 × PacketReader) := do
  let (n, r) ← r.getNumber 4
  return (UInt32.ofNat n, r)

def getFixedString (length : Nat) (r : PacketReader) :
    Except ReadFault (Bytes × PacketReader) := do
  if r.remaining < length then return ([], r)
  let ret ← substr r.data r.pos length
  return (ret, r.advance ret.length)

/-- The cursor moves over the break character even when none was found. -/
def getBreakString (breakchar : UInt8) (r : PacketReader) :
    Except ReadFault (Bytes × PacketReader) := do
  let (ret, r) ← r.getFixedString (sizeSub (findFirstOf r.data breakchar r.pos) r.pos)
  return (ret, r.advance 1)

def getEndString (r : PacketReader) : Except ReadFault (Bytes × PacketReader) :=
  r.getFixedString r.remaining

@[simp] theorem advance_data (r : PacketReader) (n : Nat) : (r.advance n).data = r.data := rfl

@[simp] theorem advance_pos (r : PacketReader) (n : Nat) : (r.advance n).pos = r.pos + n := rfl

@[simp] theorem advance_length (r : PacketReader) (n : Nat) :
    (r.advance n).length = r.length := rfl

end PacketReader

theorem sizeSub_of_le {a b : Nat} (h : b ≤ a) : sizeSub a b = a - b := if_pos h

theorem byteAt_of_lt {data : Bytes} {index : Nat} (h : index < data.length) :
    byteAt data index = .ok data[index] := by
  simp [byteAt, h]

/-- A copy that stays inside the data succeeds. -/
theorem copyN_of_le {data : Bytes} {pos n : Nat} (h : pos + n ≤ data.length) :
    copyN data pos n = .ok ((data.drop pos).take n) := by
  induction n generalizing pos with
  | zero => simp [copyN]
  | succ n ih =>
      have hPos : pos < data.length := by omega
      rw [copyN, byteAt_of_lt hPos, ih (by omega), List.drop_eq_getElem_cons hPos]
      rfl

/-- A successful search finds a place at or behind the start. -/
theorem findFirstOf_cases (data : Bytes) (c : UInt8) (pos : Nat) :
    findFirstOf data c pos = npos ∨
      (pos ≤ findFirstOf data c pos ∧ findFirstOf data c pos < data.length) := by
  unfold findFirstOf
  split
  · next k hk =>
      have := (List.findIdx?_eq_some_iff_getElem.mp hk).1
      simp only [List.length_drop] at this
      exact Or.inr (by omega)
  · exact Or.inl rfl

namespace PacketReader

/-- The cursor lies behind the header and not behind the data. -/
def Inside (r : PacketReader) : Prop := 2 ≤ r.pos ∧ r.pos ≤ r.length

theorem Inside.remaining {r : PacketReader} (h : r.Inside) : r.remaining = r.length - r.pos :=
  sizeSub_of_le h.2

/-- A numeric getter takes the bytes it finds, at most as many as are left. -/
theorem getNumber_inside {r : PacketReader} (h : r.Inside) (n : Nat) :
    ∃ value, r.getNumber n = .ok (value, r.advance (min n (r.length - r.pos))) := by
  have hEnd : r.pos ≤ r.data.length := h.2
  have hCopy : copyN r.data r.pos (min n (r.length - r.pos)) =
      .ok ((r.data.drop r.pos).take (min n (r.length - r.pos))) :=
    copyN_of_le (by simp only [length]; omega)
  simp only [getNumber, h.remaining, hCopy]
  exact ⟨_, rfl⟩

theorem getByte_inside {r : PacketReader} (h : r.Inside) :
    ∃ value, r.getByte = .ok (value, r.advance (min 1 (r.length - r.pos))) := by
  unfold getByte
  rw [h.remaining]
  by_cases hEnd : r.length - r.pos < 1
  · have hMin : min 1 (r.length - r.pos) = 0 := by omega
    rw [if_pos hEnd, hMin]
    exact ⟨0, rfl⟩
  · have hMin : min 1 (r.length - r.pos) = 1 := by omega
    have hPos : r.pos < r.data.length := by simp only [length] at hEnd; omega
    rw [if_neg hEnd, byteAt_of_lt hPos, hMin]
    exact ⟨_, rfl⟩

/-- A string getter either leaves the cursor or moves it over what it returns. -/
theorem getFixedString_inside {r : PacketReader} (h : r.Inside) (n : Nat) :
    ∃ value, r.getFixedString n =
      .ok (value, r.advance (if r.length - r.pos < n then 0 else n)) := by
  unfold getFixedString
  rw [h.remaining]
  by_cases hShort : r.length - r.pos < n
  · rw [if_pos hShort, if_pos hShort]
    exact ⟨[], rfl⟩
  · have hPos : r.pos ≤ r.data.length := h.2
    have hLength : ((r.data.drop r.pos).take n).length = n := by
      simp only [length] at hShort
      simp only [List.length_take, List.length_drop]
      omega
    refine ⟨(r.data.drop r.pos).take n, ?_⟩
    rw [if_neg hShort, if_neg hShort, substr, if_pos hPos]
    change Except.ok (_, r.advance _) = _
    rw [hLength]

/-- With data left, a break string ends inside the data. At the end of the
data the cursor leaves it. -/
theorem getBreakString_inside {r : PacketReader} (h : r.Inside)
    (hSize : r.length ≤ stringMaxSize) (c : UInt8) :
    ∃ value n, r.getBreakString c = .ok (value, r.advance (n + 1)) ∧
      (r.pos + (n + 1) ≤ r.length ↔ r.pos < r.length) := by
  obtain ⟨value, hString⟩ :=
    getFixedString_inside h (sizeSub (findFirstOf r.data c r.pos) r.pos)
  refine ⟨value, _, by unfold getBreakString; rw [hString]; rfl, ?_⟩
  have hEnd := h.2
  have hData : r.data.length = r.length := rfl
  rcases findFirstOf_cases r.data c r.pos with hNone | ⟨hFrom, hTo⟩
  · have hBig : sizeSub (findFirstOf r.data c r.pos) r.pos = npos - r.pos := by
      rw [hNone, sizeSub_of_le]
      simp only [npos, stringMaxSize] at hSize ⊢
      omega
    have hShort : r.length - r.pos < npos - r.pos := by
      simp only [npos, stringMaxSize] at hSize ⊢
      omega
    simp only [hBig, hShort, ↓reduceIte]
    omega
  · rw [sizeSub_of_le hFrom]
    split <;> omega

end PacketReader

/-- One call of a handler on its reader. -/
inductive GetterCall where
  | remaining
  | getByte
  | getChar
  | getShort
  | getThree
  | getInt
  | getFixedString (length : Nat)
  | getBreakString (breakchar : UInt8)
  | getEndString
  deriving Repr, DecidableEq

namespace GetterCall

open PacketReader

def run (r : PacketReader) : GetterCall → Except ReadFault PacketReader
  | remaining => .ok r
  | getByte => (·.2) <$> r.getByte
  | getChar => (·.2) <$> r.getChar
  | getShort => (·.2) <$> r.getShort
  | getThree => (·.2) <$> r.getThree
  | getInt => (·.2) <$> r.getInt
  | getFixedString length => (·.2) <$> r.getFixedString length
  | getBreakString breakchar => (·.2) <$> r.getBreakString breakchar
  | getEndString => (·.2) <$> r.getEndString

def runAll : List GetterCall → PacketReader → Except ReadFault PacketReader
  | [], r => .ok r
  | call :: calls, r => do
      let r ← call.run r
      runAll calls r

/-- The call is a break string with the cursor at the end of the data. -/
def AtEnd (r : PacketReader) : GetterCall → Prop
  | getBreakString _ => r.pos = r.length
  | _ => False

/-- After every call the cursor is inside the data, and no call has read
outside of it. A thrown exception ends the handler. -/
def CursorSafe (r : PacketReader) (calls : List GetterCall) : Prop :=
  ∀ done, done <+: calls → match runAll done r with
    | .ok r' => r'.Inside
    | .error (.outOfBounds _) => False
    | .error .outOfRange => True

/-- No call of the sequence is a break string with nothing left to read. -/
def NeverAtEnd (r : PacketReader) (calls : List GetterCall) : Prop :=
  ∀ done call, done ++ [call] <+: calls → ∀ r', runAll done r = .ok r' → ¬call.AtEnd r'

theorem inside_advance {r : PacketReader} (h : r.Inside) {n : Nat}
    (hn : n ≤ r.length - r.pos) : (r.advance n).Inside := by
  have hFrom := h.1
  have hTo := h.2
  exact ⟨by simp only [advance_pos]; omega, by simp only [advance_pos, advance_length]; omega⟩

/-- From inside the data every call returns, and only the cursor moves. It
leaves the data exactly for a break string at the end. -/
theorem run_advance {r : PacketReader} (h : r.Inside) (hSize : r.length ≤ stringMaxSize)
    (call : GetterCall) :
    ∃ n, call.run r = .ok (r.advance n) ∧ ((r.advance n).Inside ↔ ¬call.AtEnd r) := by
  have hTo := h.2
  have hNumber (n : Nat) : min n (r.length - r.pos) ≤ r.length - r.pos := by omega
  have hString (n : Nat) : (if r.length - r.pos < n then 0 else n) ≤ r.length - r.pos := by
    split <;> omega
  have hIff {n : Nat} (hn : n ≤ r.length - r.pos) : (r.advance n).Inside ↔ ¬False := by
    simpa using inside_advance h hn
  cases call with
  | remaining => exact ⟨0, rfl, hIff (by omega)⟩
  | getByte =>
      obtain ⟨value, hGet⟩ := getByte_inside h
      exact ⟨_, by rw [run, hGet]; rfl, hIff (hNumber 1)⟩
  | getChar =>
      obtain ⟨value, hGet⟩ := getNumber_inside h 1
      exact ⟨_, by rw [run, PacketReader.getChar, hGet]; rfl, hIff (hNumber 1)⟩
  | getShort =>
      obtain ⟨value, hGet⟩ := getNumber_inside h 2
      exact ⟨_, by rw [run, PacketReader.getShort, hGet]; rfl, hIff (hNumber 2)⟩
  | getThree =>
      obtain ⟨value, hGet⟩ := getNumber_inside h 3
      exact ⟨_, by rw [run, PacketReader.getThree, hGet]; rfl, hIff (hNumber 3)⟩
  | getInt =>
      obtain ⟨value, hGet⟩ := getNumber_inside h 4
      exact ⟨_, by rw [run, PacketReader.getInt, hGet]; rfl, hIff (hNumber 4)⟩
  | getFixedString n =>
      obtain ⟨value, hGet⟩ := getFixedString_inside h n
      exact ⟨_, by rw [run, hGet]; rfl, hIff (hString n)⟩
  | getBreakString c =>
      obtain ⟨value, n, hGet, hEnd⟩ := getBreakString_inside h hSize c
      refine ⟨n + 1, by rw [run, hGet]; rfl, ?_⟩
      simp only [Inside, AtEnd, advance_pos, advance_length, hEnd]
      have := h.1
      omega
  | getEndString =>
      obtain ⟨value, hGet⟩ := getFixedString_inside h r.remaining
      exact ⟨_, by rw [run, PacketReader.getEndString, hGet]; rfl, hIff (hString _)⟩

/-- A safe sequence starts inside, and stays safe behind its first call. -/
theorem cursorSafe_cons {r r' : PacketReader} {call : GetterCall} (h : call.run r = .ok r')
    (calls : List GetterCall) : CursorSafe r (call :: calls) ↔ r.Inside ∧ CursorSafe r' calls := by
  have hCons (done : List GetterCall) : runAll (call :: done) r = runAll done r' := by
    simp [runAll, h, Bind.bind, Except.bind]
  constructor
  · intro hSafe
    refine ⟨hSafe [] List.nil_prefix, fun done hDone => ?_⟩
    rw [← hCons done]
    exact hSafe (call :: done) (List.cons_prefix_cons.mpr ⟨rfl, hDone⟩)
  · rintro ⟨hInside, hSafe⟩ done hDone
    rcases List.prefix_cons_iff.mp hDone with rfl | ⟨rest, rfl, hRest⟩
    · exact hInside
    · rw [hCons rest]
      exact hSafe rest hRest

theorem neverAtEnd_cons {r r' : PacketReader} {call : GetterCall} (h : call.run r = .ok r')
    (calls : List GetterCall) :
    NeverAtEnd r (call :: calls) ↔ ¬call.AtEnd r ∧ NeverAtEnd r' calls := by
  have hCons (done : List GetterCall) : runAll (call :: done) r = runAll done r' := by
    simp [runAll, h, Bind.bind, Except.bind]
  constructor
  · intro hNever
    refine ⟨hNever [] call (by simp) r rfl, fun done next hDone last hLast => ?_⟩
    exact hNever (call :: done) next (List.cons_prefix_cons.mpr ⟨rfl, hDone⟩) last
      (by rw [hCons, hLast])
  · rintro ⟨hFirst, hNever⟩ done next hDone last hLast
    cases done with
    | nil =>
        obtain ⟨rfl, _⟩ := List.cons_prefix_cons.mp hDone
        obtain rfl : r = last := by simpa [runAll] using hLast
        exact hFirst
    | cons first done =>
        obtain ⟨rfl, hRest⟩ := List.cons_prefix_cons.mp hDone
        exact hNever done next hRest last (by rw [← hCons, hLast])

/-- Inside the data, a sequence of calls is safe exactly when none of them is
a break string at the end. -/
theorem cursorSafe_iff_neverAtEnd {r : PacketReader} (h : r.Inside)
    (hSize : r.length ≤ stringMaxSize) (calls : List GetterCall) :
    CursorSafe r calls ↔ NeverAtEnd r calls := by
  induction calls generalizing r with
  | nil =>
      constructor
      · intro _ done call hDone
        simp at hDone
      · intro _ done hDone
        obtain rfl := List.prefix_nil.mp hDone
        exact h
  | cons call calls ih =>
      obtain ⟨n, hRun, hIff⟩ := run_advance h hSize call
      rw [cursorSafe_cons hRun, neverAtEnd_cons hRun, ← hIff]
      constructor
      · rintro ⟨_, hSafe⟩
        have hInside : (r.advance n).Inside := hSafe [] List.nil_prefix
        exact ⟨hInside, (ih hInside hSize).mp hSafe⟩
      · rintro ⟨hInside, hNever⟩
        exact ⟨h, (ih hInside hSize).mpr hNever⟩

end GetterCall

/-- For packet data that holds at least the action and the family, a sequence
of getter calls keeps the cursor inside the data and reads no byte outside of
it exactly when it never asks for a break string with nothing left to read. -/
theorem cursorSafe_iff (data : Bytes) (hHeader : 2 ≤ data.length)
    (hSize : data.length ≤ stringMaxSize) (calls : List GetterCall) :
    GetterCall.CursorSafe (.new data) calls ↔ GetterCall.NeverAtEnd (.new data) calls :=
  GetterCall.cursorSafe_iff_neverAtEnd (r := .new data) ⟨Nat.le_refl 2, hHeader⟩ hSize calls

theorem cursorSafe_iff_login :
    GetterCall.CursorSafe (.new [6, 4, 97, 255, 98, 255]) [.getBreakString 255, .getBreakString 255] ↔
      GetterCall.NeverAtEnd (.new [6, 4, 97, 255, 98, 255])
        [.getBreakString 255, .getBreakString 255] :=
  cursorSafe_iff [6, 4, 97, 255, 98, 255] (by decide) (by decide) _

/-- A break string of an empty payload leaves the cursor behind the data, and
the next byte is read from outside of it. -/
theorem not_cursorSafe_empty_payload :
    ¬GetterCall.CursorSafe (.new [6, 4]) [.getBreakString 255, .getByte] := by
  intro h
  have := h [.getBreakString 255, .getByte] (List.prefix_refl _)
  have hRun : GetterCall.runAll [.getBreakString 255, .getByte] (.new [6, 4]) =
      .error (.outOfBounds 3) := by rfl
  rw [hRun] at this
  exact this

end Etheos
