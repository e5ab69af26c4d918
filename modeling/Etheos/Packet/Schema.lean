import Etheos.Packet.Builder
import Etheos.Packet.Reader

/-! Packets as sequences of typed fields, written by one side and read by the
other in the same order. -/
namespace Etheos

open PacketProcessor

/-- A field with a value that its encoding can hold. A break string may contain
its break character, and comes back with a `y` in its place. -/
inductive Field where
  | byte (value : UInt8)
  | char (num : UInt8) (h : num.toNat < max1)
  | short (num : UInt16) (h : num.toNat < max2)
  | three (num : UInt32) (h : num.toNat < max3)
  | int (num : UInt32) (h : num.toNat < 253 ^ 4)
  | breakString (str : Bytes) (breakchar : UInt8) (h : breakchar ≠ 121)

/-- What a getter returns. -/
inductive Value where
  | byte (value : UInt8)
  | short (value : UInt16)
  | int (value : UInt32)
  | string (value : Bytes)
  deriving Repr, DecidableEq

namespace Field

def write (builder : PacketBuilder) : Field → PacketBuilder
  | byte value => builder.addByte value
  | char num _ => builder.addChar num
  | short num _ => builder.addShort num
  | three num _ => builder.addThree num
  | int num _ => builder.addInt num
  | breakString str breakchar _ => builder.addBreakString str breakchar

/-- The getter that matches the field. -/
def read (r : PacketReader) : Field → Except ReadFault (Value × PacketReader)
  | byte _ => (fun (v, r) => (.byte v, r)) <$> r.getByte
  | char _ _ => (fun (v, r) => (.byte v, r)) <$> r.getChar
  | short _ _ => (fun (v, r) => (.short v, r)) <$> r.getShort
  | three _ _ => (fun (v, r) => (.int v, r)) <$> r.getThree
  | int _ _ => (fun (v, r) => (.int v, r)) <$> r.getInt
  | breakString _ breakchar _ => (fun (v, r) => (.string v, r)) <$> r.getBreakString breakchar

/-- The value that comes back. -/
def value : Field → Value
  | byte value => .byte value
  | char num _ => .byte num
  | short num _ => .short num
  | three num _ => .int num
  | int num _ => .int num
  | breakString str breakchar _ => .string (replaceBreaks str breakchar)

/-- The bytes of the field. -/
def bytes : Field → Bytes
  | byte value => [value]
  | char num _ => (eNumber num.toNat).take 1
  | short num _ => (eNumber num.toNat).take 2
  | three num _ => (eNumber num.toNat).take 3
  | int num _ => (eNumber num.toNat).take 4
  | breakString str breakchar _ => replaceBreaks str breakchar ++ [breakchar]

theorem write_eq (builder : PacketBuilder) (field : Field) :
    field.write builder = builder.append field.bytes := by
  cases field <;> rfl

end Field

/-- A packet layout with its values. An end string takes what is left, and so
can only come last. -/
structure Schema where
  fields : List Field
  final : Option Bytes

namespace Schema

def write (builder : PacketBuilder) (schema : Schema) : PacketBuilder :=
  let builder := schema.fields.foldl Field.write builder
  match schema.final with
  | none => builder
  | some str => builder.addString str

def readFields (r : PacketReader) : List Field → Except ReadFault (List Value × PacketReader)
  | [] => .ok ([], r)
  | field :: fields => do
      let (value, r) ← field.read r
      let (values, r) ← readFields r fields
      return (value :: values, r)

def read (r : PacketReader) (schema : Schema) : Except ReadFault (List Value × PacketReader) := do
  let (values, r) ← readFields r schema.fields
  match schema.final with
  | none => return (values, r)
  | some _ =>
      let (str, r) ← r.getEndString
      return (values ++ [.string str], r)

def values (schema : Schema) : List Value :=
  schema.fields.map Field.value ++ (schema.final.map Value.string).toList

end Schema

namespace PacketReader

/-- The reader stands between what it has read and what is left. -/
def between (done rest : Bytes) : PacketReader := ⟨done ++ rest, done.length⟩

theorem between_remaining (done rest : Bytes) : (between done rest).remaining = rest.length := by
  simp [between, remaining, length, sizeSub]

theorem between_advance (done bytes rest : Bytes) :
    (between done (bytes ++ rest)).advance bytes.length = between (done ++ bytes) rest := by
  simp [between, advance]

theorem copyN_between (done bytes rest : Bytes) :
    copyN (done ++ (bytes ++ rest)) done.length bytes.length = .ok bytes := by
  rw [copyN_of_le (by simp)]
  simp

/-- The digits of a number that fits are read back. -/
theorem getNumber_between (done rest : Bytes) {width n : Nat} (hWidth : 1 ≤ width ∧ width ≤ 4)
    (hn : n < 253 ^ width) :
    (between done ((eNumber n).take width ++ rest)).getNumber width =
      .ok (n, between (done ++ (eNumber n).take width) rest) := by
  have hLength : ((eNumber n).take width).length = width := by
    rw [List.length_take, eNumber_length]
    omega
  have hRead : min width (between done ((eNumber n).take width ++ rest)).remaining = width := by
    rw [between_remaining, List.length_append, hLength]
    omega
  have hCopy := copyN_between done ((eNumber n).take width) rest
  rw [hLength] at hCopy
  have hAdvance := between_advance done ((eNumber n).take width) rest
  rw [hLength] at hAdvance
  have hNumber := number_eNumber_take hWidth hn
  simp only [getNumber, hRead, hAdvance]
  simp only [between, hCopy]
  exact congrArg (fun m => Except.ok (m, between (done ++ (eNumber n).take width) rest)) hNumber

theorem getByte_between (done rest : Bytes) (b : UInt8) :
    (between done (b :: rest)).getByte = .ok (b, between (done ++ [b]) rest) := by
  have hLeft : ¬(between done (b :: rest)).remaining < 1 := by
    simp [between_remaining]
  have hByte : byteAt (done ++ b :: rest) done.length = .ok b := by
    simp [byteAt]
  simp only [getByte, hLeft, ↓reduceIte]
  simp only [between, hByte]
  exact congrArg (fun r => Except.ok (b, r)) (between_advance done [b] rest)

theorem getFixedString_between (done str rest : Bytes) :
    (between done (str ++ rest)).getFixedString str.length =
      .ok (str, between (done ++ str) rest) := by
  have hLeft : ¬(between done (str ++ rest)).remaining < str.length := by
    simp [between_remaining]
  have hSub : substr (done ++ (str ++ rest)) done.length str.length = .ok str := by
    simp [substr]
  simp only [getFixedString, hLeft, ↓reduceIte]
  simp only [between, hSub]
  exact congrArg (fun r => Except.ok (str, r)) (between_advance done str rest)

/-- The search stops at the break character that ends the string. -/
theorem findFirstOf_between (done rest : Bytes) {str : Bytes} {c : UInt8} (h : c ∉ str) :
    findFirstOf (done ++ (str ++ c :: rest)) c done.length = done.length + str.length := by
  have hFind : (str ++ c :: rest).findIdx? (· = c) = some str.length := by
    rw [List.findIdx?_eq_some_iff_getElem]
    refine ⟨by simp, by simp, fun i hi => ?_⟩
    have hMem : str[i] ∈ str := List.getElem_mem hi
    simp only [List.getElem_append_left hi, decide_eq_true_eq]
    rintro hEq
    exact h (hEq ▸ hMem)
  simp [findFirstOf, hFind]

theorem getBreakString_between (done rest : Bytes) {str : Bytes} {c : UInt8} (h : c ∉ str) :
    (between done (str ++ c :: rest)).getBreakString c =
      .ok (str, between (done ++ (str ++ [c])) rest) := by
  have hFind : sizeSub (findFirstOf (between done (str ++ c :: rest)).data c
      (between done (str ++ c :: rest)).pos) (between done (str ++ c :: rest)).pos =
        str.length := by
    simp only [between, findFirstOf_between done rest h, sizeSub_of_le (Nat.le_add_right _ _),
      Nat.add_sub_cancel_left]
  have hOver := between_advance (done ++ str) [c] rest
  rw [List.append_assoc] at hOver
  rw [getBreakString, hFind, getFixedString_between done str (c :: rest)]
  exact congrArg (fun r => Except.ok (str, r)) hOver

end PacketReader

/-- A break string contains its break character no more. -/
theorem not_mem_replaceBreaks (str : Bytes) {c : UInt8} (h : c ≠ 121) :
    c ∉ replaceBreaks str c := by
  simp only [replaceBreaks, List.mem_map, not_exists, not_and]
  intro b _
  split
  · exact fun hEq => h hEq.symm
  · assumption

open PacketReader

/-- Reading a field where it was written returns its value and moves the cursor
behind it. -/
theorem Field.read_between (done rest : Bytes) (field : Field) :
    field.read (between done (field.bytes ++ rest)) =
      .ok (field.value, between (done ++ field.bytes) rest) := by
  cases field with
  | byte value =>
      simp only [read, bytes, List.singleton_append, getByte_between]
      rfl
  | char num h =>
      have hRead := getNumber_between done rest (by decide : 1 ≤ 1 ∧ 1 ≤ 4) h
      simp only [read, bytes, getChar, hRead]
      simp [Functor.map, Except.map, Bind.bind, Except.bind, Pure.pure, Except.pure, value]
  | short num h =>
      have hRead := getNumber_between done rest (by decide : 1 ≤ 2 ∧ 2 ≤ 4) h
      simp only [read, bytes, getShort, hRead]
      simp [Functor.map, Except.map, Bind.bind, Except.bind, Pure.pure, Except.pure, value]
  | three num h =>
      have hRead := getNumber_between done rest (by decide : 1 ≤ 3 ∧ 3 ≤ 4) h
      simp only [read, bytes, getThree, hRead]
      simp [Functor.map, Except.map, Bind.bind, Except.bind, Pure.pure, Except.pure, value]
  | int num h =>
      have hRead := getNumber_between done rest (by decide : 1 ≤ 4 ∧ 4 ≤ 4) h
      simp only [read, bytes, getInt, hRead]
      simp [Functor.map, Except.map, Bind.bind, Except.bind, Pure.pure, Except.pure, value]
  | breakString str breakchar h =>
      have hNone := not_mem_replaceBreaks str h
      simp only [read, bytes, List.append_assoc, List.singleton_append,
        getBreakString_between done rest hNone]
      rfl

namespace Schema

theorem readFields_between (done rest : Bytes) (fields : List Field) :
    readFields (between done (fields.flatMap Field.bytes ++ rest)) fields =
      .ok (fields.map Field.value, between (done ++ fields.flatMap Field.bytes) rest) := by
  induction fields generalizing done with
  | nil => simp [readFields]
  | cons field fields ih =>
      simp only [readFields, List.flatMap_cons, List.append_assoc, field.read_between done]
      simp only [Bind.bind, Except.bind, ih (done ++ field.bytes)]
      simp [Pure.pure, Except.pure]

theorem foldl_write_data (builder : PacketBuilder) (fields : List Field) :
    (fields.foldl Field.write builder).data =
      builder.data ++ fields.flatMap Field.bytes := by
  induction fields generalizing builder with
  | nil => simp
  | cons field fields ih =>
      simp [ih, Field.write_eq, List.append_assoc]

theorem write_data (builder : PacketBuilder) (schema : Schema) :
    (schema.write builder).data =
      builder.data ++ (schema.fields.flatMap Field.bytes ++ schema.final.getD []) := by
  unfold write
  cases schema.final with
  | none => simp [foldl_write_data]
  | some str => simp [PacketBuilder.addString, foldl_write_data]

/-- A packet written by a schema is read back by the same schema, and nothing
of it is left. -/
theorem read_write (family action : UInt8) (schema : Schema) :
    let data := (schema.write (.new family action)).get.drop 2
    schema.read (.new data) = .ok (schema.values, ⟨data, data.length⟩) := by
  intro data
  have hNew : (PacketBuilder.new family action).data = [] := rfl
  have hData : data = epid (schema.write (.new family action)).id ++
      (schema.fields.flatMap Field.bytes ++ schema.final.getD []) := by
    simp only [data, PacketBuilder.get_drop_two, write_data, hNew, List.nil_append]
  have hStart : PacketReader.new data =
      between (epid (schema.write (.new family action)).id)
        (schema.fields.flatMap Field.bytes ++ schema.final.getD []) := by
    simp [PacketReader.new, between, hData, epid]
  have hEnd : (⟨data, data.length⟩ : PacketReader) = between data [] := by
    simp [between]
  rw [hStart, hEnd, hData, read, readFields_between, values]
  cases schema.final with
  | none => simp [Bind.bind, Except.bind, Pure.pure, Except.pure]
  | some str =>
      have hString := getFixedString_between
        (epid (schema.write (.new family action)).id ++ schema.fields.flatMap Field.bytes) str []
      rw [List.append_nil] at hString
      simp [Bind.bind, Except.bind, Pure.pure, Except.pure, getEndString, between_remaining,
        hString]

end Schema

end Etheos
