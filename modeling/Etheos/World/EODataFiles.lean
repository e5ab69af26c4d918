import Etheos.World.EOData
import Etheos.World.PubFiles
import Mathlib.Data.List.Forall2

/-! Data files that are written as their kind asks for, and what they are read as. -/
namespace Etheos.EOData

open General PacketProcessor
open Characters (toShort)
open ConfigFiles (bytes)
open MapFiles (number1 number2 number3)

/-- A value of a record, and the largest one that there is room for. -/
structure Entry where
  slot : Slot
  top : Nat
  value : Int

def Entry.short (offset : Nat) (value : Int) : Entry := ⟨⟨offset, 2⟩, 32767, value⟩

def Entry.char (offset : Nat) (value : Int) : Entry := ⟨⟨offset, 1⟩, 252, value⟩

def Entry.two (offset : Nat) (value : Int) : Entry := ⟨⟨offset, 2⟩, 64008, value⟩

def Entry.three (offset : Nat) (value : Int) : Entry := ⟨⟨offset, 3⟩, 16194276, value⟩

/-- The digits at the place. -/
def Entry.written (entry : Entry) : Slot × Bytes :=
  (entry.slot, (eNumber entry.value.toNat).take entry.slot.width)

def Entry.place (entry : Entry) : Slot × Nat := (entry.slot, entry.top)

/-- No value is in the way of another one, or too large for its bytes. -/
def Laid (size : Nat) (places : List (Slot × Nat)) : Prop :=
  (places.map Prod.fst).Pairwise Slot.Apart ∧
    ∀ place ∈ places, 1 ≤ place.1.width ∧ place.1.width ≤ 3 ∧ place.1.offset + place.1.width ≤ size ∧
      place.2 < 253 ^ place.1.width

instance (size : Nat) (places : List (Slot × Nat)) : Decidable (Laid size places) :=
  inferInstanceAs (Decidable (List.Pairwise _ _ ∧ _))

def Entry.Fits (entry : Entry) : Prop := 0 ≤ entry.value ∧ entry.value ≤ entry.top

instance (entry : Entry) : Decidable entry.Fits := inferInstanceAs (Decidable (_ ∧ _))

/-- The values of a block. -/
def blockOf (size : Nat) (entries : List Entry) (filler : Nat → UInt8) : Bytes :=
  block size (entries.map Entry.written) filler

/-- `PacketProcessor::Number` of as many bytes as the slot has. -/
def numberAt (buf : Bytes) (slot : Slot) : Nat :=
  match slot.width with
  | 1 => number1 buf slot.offset
  | 2 => number2 buf slot.offset
  | _ => number3 buf slot.offset

section Blocks

variable {size : Nat} {entries : List Entry} {filler : Nat → UInt8}

/-- What is written in a block is read there. -/
theorem numberAt_blockOf (hLaid : Laid size (entries.map Entry.place)) {entry : Entry} (hEntry : entry ∈ entries)
    (hFits : entry.Fits) :
    (numberAt (blockOf size entries filler) entry.slot : Int) = entry.value := by
  obtain ⟨hApart, hRooms⟩ := hLaid
  obtain ⟨hMin, hMax, hSize, hTop⟩ : 1 ≤ entry.slot.width ∧ entry.slot.width ≤ 3 ∧
      entry.slot.offset + entry.slot.width ≤ size ∧ entry.top < 253 ^ entry.slot.width :=
    hRooms entry.place (List.mem_map_of_mem hEntry)
  obtain ⟨hLow, hHigh⟩ := hFits
  have hNumber : entry.value.toNat < 253 ^ entry.slot.width := by omega
  have hSlots : ((entries.map Entry.written).map Prod.fst).Pairwise Slot.Apart := by
    rw [List.map_map] at hApart ⊢
    exact hApart
  have hByte : ∀ k < entry.slot.width, (blockOf size entries filler).getD (entry.slot.offset + k) 254 =
      ((eNumber entry.value.toNat).take entry.slot.width ++ List.replicate (4 - entry.slot.width) 254).getD k 254 := by
    intro k hk
    have hLength : entry.slot.width ≤ ((eNumber entry.value.toNat).take entry.slot.width).length := by
      rw [List.length_take, eNumber_length]
      omega
    rw [List.getD_append _ _ _ _ (Nat.lt_of_lt_of_le hk hLength)]
    exact block_getD hSlots (List.mem_map_of_mem hEntry) hSize hLength hk 254
  have hRead := number_eNumber_take ⟨hMin, by omega⟩ hNumber
  dsimp only at hRead
  obtain ⟨⟨offset, width⟩, top, value⟩ := entry
  dsimp only at *
  have hValue : (value.toNat : Int) = value := Int.toNat_of_nonneg hLow
  obtain rfl | rfl | rfl : width = 1 ∨ width = 2 ∨ width = 3 := by omega
  · rw [← hValue, ← hRead, ← hByte 0 (by decide)]
    rfl
  · rw [← hValue, ← hRead, ← hByte 0 (by decide), ← hByte 1 (by decide)]
    rfl
  · rw [← hValue, ← hRead, ← hByte 0 (by decide), ← hByte 1 (by decide), ← hByte 2 (by decide)]
    rfl

/-- The entries are known by their places in the list. -/
theorem read_entry (hLaid : Laid size (entries.map Entry.place)) (hFits : ∀ entry ∈ entries, entry.Fits) (i : Nat)
    {entry : Entry} (hEntry : entries[i]? = some entry) :
    (numberAt (blockOf size entries filler) entry.slot : Int) = entry.value :=
  have hMem := List.mem_of_getElem? hEntry
  numberAt_blockOf hLaid hMem (hFits entry hMem)

theorem read_char (hLaid : Laid size (entries.map Entry.place)) (hFits : ∀ entry ∈ entries, entry.Fits) (i : Nat)
    {offset : Nat} {value : Int} (hEntry : entries[i]? = some (.char offset value)) :
    (number1 (blockOf size entries filler) offset : Int) = value :=
  read_entry hLaid hFits i hEntry

theorem read_two (hLaid : Laid size (entries.map Entry.place)) (hFits : ∀ entry ∈ entries, entry.Fits) (i : Nat)
    {offset : Nat} {value : Int} (hEntry : entries[i]? = some (.two offset value)) :
    (number2 (blockOf size entries filler) offset : Int) = value :=
  read_entry hLaid hFits i hEntry

theorem read_three (hLaid : Laid size (entries.map Entry.place)) (hFits : ∀ entry ∈ entries, entry.Fits) (i : Nat)
    {offset : Nat} {value : Int} (hEntry : entries[i]? = some (.three offset value)) :
    (number3 (blockOf size entries filler) offset : Int) = value :=
  read_entry hLaid hFits i hEntry

theorem read_short (hLaid : Laid size (entries.map Entry.place)) (hFits : ∀ entry ∈ entries, entry.Fits) (i : Nat)
    {offset : Nat} {value : Int} (hEntry : entries[i]? = some (.short offset value)) :
    toShort (number2 (blockOf size entries filler) offset) = value := by
  have hRead : (number2 (blockOf size entries filler) offset : Int) = value := read_entry hLaid hFits i hEntry
  have hLow : 0 ≤ value := (hFits _ (List.mem_of_getElem? hEntry)).1
  have hHigh : value ≤ 32767 := (hFits _ (List.mem_of_getElem? hEntry)).2
  rw [hRead]
  exact Int.bmod_eq_of_le (by omega) (by omega)

end Blocks

/-- How the records of a kind are written, such that they are read as what they are. -/
structure Layout {α : Type} (fmt : Format α) where
  strings : α → List Bytes
  entries : α → List Entry
  /-- The record with its number, as it is read. -/
  numbered : Nat → α → α
  name : ∀ i data, fmt.name (numbered i data) = fmt.name data
  length : ∀ data, (strings data).length = fmt.texts
  decode : ∀ i data filler, (∀ entry ∈ entries data, entry.Fits) →
    fmt.decode i (strings data) (blockOf fmt.dataSize (entries data) filler) = numbered i data

def EIFData.entries (data : EIFData) : List Entry :=
  [.short 0 data.graphic, .char 2 data.type, .char 3 data.subtype, .char 4 data.special, .short 5 data.hp,
    .short 7 data.tp, .short 9 data.mindam, .short 11 data.maxdam, .short 13 data.accuracy, .short 15 data.evade,
    .short 17 data.armor, .char 20 data.str, .char 21 data.intl, .char 22 data.wis, .char 23 data.agi,
    .char 24 data.con, .char 25 data.cha, .char 26 data.light, .char 27 data.dark, .char 28 data.earth,
    .char 29 data.air, .char 30 data.water, .char 31 data.fire, .three 32 data.scrollmap, .char 35 data.scrollx,
    .char 36 data.scrolly, .short 37 data.levelreq, .short 39 data.classreq, .short 41 data.strreq,
    .short 43 data.intreq, .short 45 data.wisreq, .short 47 data.agireq, .short 49 data.conreq,
    .short 51 data.chareq, .char 55 data.weight, .char 57 data.size]

theorem EIFData.laid (data : EIFData) : Laid 58 (data.entries.map Entry.place) := by
  have hBlank : Laid 58 (EIFData.blank.entries.map Entry.place) := by decide +kernel
  exact hBlank

def EIF.layout : Layout EIF where
  strings data := [data.name]
  entries := EIFData.entries
  numbered i data :=
    { data with id := i, subtype := if EIF.isGun i data.name then EIF.ranged else data.subtype }
  name _ _ := rfl
  length _ := rfl
  decode i data filler hFits := by
    have short := @read_short 58 data.entries filler data.laid hFits
    have char := @read_char 58 data.entries filler data.laid hFits
    have three := @read_three 58 data.entries filler data.laid hFits
    show EIF.decode i [data.name] (blockOf 58 data.entries filler) = _
    simp only [EIF.decode, List.getD_cons_zero, short 0 rfl, char 1 rfl, char 2 rfl, char 3 rfl, short 4 rfl,
      short 5 rfl, short 6 rfl, short 7 rfl, short 8 rfl, short 9 rfl, short 10 rfl, char 11 rfl, char 12 rfl,
      char 13 rfl, char 14 rfl, char 15 rfl, char 16 rfl, char 17 rfl, char 18 rfl, char 19 rfl, char 20 rfl, char 21 rfl,
      char 22 rfl, three 23 rfl, char 24 rfl, char 25 rfl, short 26 rfl, short 27 rfl, short 28 rfl, short 29 rfl,
      short 30 rfl, short 31 rfl, short 32 rfl, short 33 rfl, char 34 rfl, char 35 rfl]

def ENFData.entries (data : ENFData) : List Entry :=
  [.two 0 data.graphic, .short 3 data.boss, .short 5 data.child, .two 7 data.type, .short 9 data.vendorId,
    .three 11 data.hp, .short 16 data.mindam, .short 18 data.maxdam, .short 20 data.accuracy, .short 22 data.evade,
    .short 24 data.armor, .three 36 data.exp]

theorem ENFData.laid (data : ENFData) : Laid 39 (data.entries.map Entry.place) := by
  have hBlank : Laid 39 (ENFData.blank.entries.map Entry.place) := by decide +kernel
  exact hBlank

def ENF.layout : Layout ENF where
  strings data := [data.name]
  entries := ENFData.entries
  numbered i data := { data with id := i }
  name _ _ := rfl
  length _ := rfl
  decode i data filler hFits := by
    have short := @read_short 39 data.entries filler data.laid hFits
    have two := @read_two 39 data.entries filler data.laid hFits
    have three := @read_three 39 data.entries filler data.laid hFits
    show ENF.decode i [data.name] (blockOf 39 data.entries filler) = _
    simp only [ENF.decode, List.getD_cons_zero, two 0 rfl, short 1 rfl, short 2 rfl, two 3 rfl, short 4 rfl,
      three 5 rfl, short 6 rfl, short 7 rfl, short 8 rfl, short 9 rfl, short 10 rfl, three 11 rfl]

def ESFData.entries (data : ESFData) : List Entry :=
  [.short 0 data.icon, .short 2 data.graphic, .short 4 data.tp, .short 6 data.sp, .char 8 data.castTime,
    .char 11 data.type, .char 17 data.targetRestrict, .char 18 data.target, .short 23 data.mindam,
    .short 25 data.maxdam, .short 27 data.accuracy, .short 34 data.hp]

theorem ESFData.laid (data : ESFData) : Laid 51 (data.entries.map Entry.place) := by
  have hBlank : Laid 51 (ESFData.blank.entries.map Entry.place) := by decide +kernel
  exact hBlank

def ESF.layout : Layout ESF where
  strings data := [data.name, data.shout]
  entries := ESFData.entries
  numbered i data := { data with id := i }
  name _ _ := rfl
  length _ := rfl
  decode i data filler hFits := by
    have short := @read_short 51 data.entries filler data.laid hFits
    have char := @read_char 51 data.entries filler data.laid hFits
    show ESF.decode i [data.name, data.shout] (blockOf 51 data.entries filler) = _
    simp only [ESF.decode, List.getD_cons_zero, List.getD_cons_succ, short 0 rfl, short 1 rfl, short 2 rfl,
      short 3 rfl, char 4 rfl, char 5 rfl, char 6 rfl, char 7 rfl, short 8 rfl, short 9 rfl, short 10 rfl,
      short 11 rfl]

def ECFData.entries (data : ECFData) : List Entry :=
  [.char 0 data.base, .char 1 data.type, .short 2 data.str, .short 4 data.intl, .short 6 data.wis,
    .short 8 data.agi, .short 10 data.con, .short 12 data.cha]

theorem ECFData.laid (data : ECFData) : Laid 14 (data.entries.map Entry.place) := by
  have hBlank : Laid 14 (ECFData.blank.entries.map Entry.place) := by decide +kernel
  exact hBlank

def ECF.layout : Layout ECF where
  strings data := [data.name]
  entries := ECFData.entries
  numbered i data := { data with id := i }
  name _ _ := rfl
  length _ := rfl
  decode i data filler hFits := by
    have short := @read_short 14 data.entries filler data.laid hFits
    have char := @read_char 14 data.entries filler data.laid hFits
    show ECF.decode i [data.name] (blockOf 14 data.entries filler) = _
    simp only [ECF.decode, List.getD_cons_zero, char 0 rfl, char 1 rfl, short 2 rfl, short 3 rfl, short 4 rfl,
      short 5 rfl, short 6 rfl, short 7 rfl]

theorem number2_eNumber {n : Nat} (hn : n < max2) : number2 ((eNumber n).take 2) 0 = n := by
  have hRead := number_eNumber_take (⟨by decide, by decide⟩ : 1 ≤ 2 ∧ 2 ≤ 4) (show n < 253 ^ 2 from hn)
  exact hRead

def sizeByte (text : Bytes) : UInt8 := UInt8.ofNat (text.length + 1)

theorem digit_sizeByte {text : Bytes} (hText : text.length ≤ 252) : digit (sizeByte text) = text.length :=
  digit_ofNat (by omega)

theorem safeRead_append {text : Bytes} {count : Nat} (hText : text.length = count) (rest : Bytes) :
    safeRead count (text ++ rest) = some (text, rest) := by
  rw [safeRead, ← hText, if_pos (by simp), List.take_left, List.drop_left]

theorem readTexts_write {texts : List Bytes} (hTexts : ∀ text ∈ texts, text.length ≤ 252) (rest : Bytes) :
    readTexts (texts.map sizeByte) (texts.flatten ++ rest) = some (texts, rest) := by
  induction texts with
  | nil => rfl
  | cons text texts ih =>
      obtain ⟨hText, hOthers⟩ := List.forall_mem_cons.mp hTexts
      rw [List.map_cons, List.flatten_cons, List.append_assoc, readTexts, digit_sizeByte hText, safeRead_append rfl]
      simp only [Option.bind_eq_bind, Option.bind_some, ih hOthers, Option.pure_def]

theorem Format.trim_concat {α : Type} (fmt : Format α) (init : List α) (last : α) :
    fmt.trim (init ++ [last]) = if fmt.name last = bytes "eof".toList then init else init ++ [last] := by
  simp [Format.trim]

theorem Format.get_succ {α : Type} (fmt : Format α) {rid len : Bytes} (first : α) (rest : List α) (i : Nat) :
    fmt.get ⟨rid, len, first :: rest⟩ (i + 1) = rest[i]?.getD first := by
  rw [Format.get]
  dsimp only
  split
  case isTrue hIn =>
      have hRest : i < rest.length := Nat.succ_lt_succ_iff.mp hIn
      rw [List.getD_cons_succ, List.getD_eq_getElem _ _ hRest, List.getElem?_eq_getElem hRest, Option.getD_some]
  case isFalse hOut =>
      have hRest : rest.length ≤ i := by
        rw [List.length_cons] at hOut
        omega
      rw [List.getD_cons_zero, List.getElem?_eq_none hRest, Option.getD_none]

namespace Layout

variable {α : Type} {fmt : Format α} (layout : Layout fmt)

/-- A record that can be written. -/
structure Valid (data : α) : Prop where
  texts : ∀ text ∈ layout.strings data, text.length ≤ 252
  values : ∀ entry ∈ layout.entries data, entry.Fits

def sizes (data : α) : Bytes := (layout.strings data).map sizeByte

/-- What there is of a record behind the sizes. The bytes that are no values are those of the filler. -/
def body (filler : Nat → UInt8) (data : α) : Bytes :=
  (layout.strings data).flatten ++ blockOf fmt.dataSize (layout.entries data) filler

/-- The records, from number `i` on. -/
def writeRecords (filler : Nat → Nat → UInt8) : Nat → List α → Bytes
  | _, [] => []
  | i, data :: rest => layout.sizes data ++ (layout.body (filler i) data ++ writeRecords filler (i + 1) rest)

/-- A file with these records. -/
def write (kind rid : Bytes) (pad : UInt8) (filler : Nat → Nat → UInt8) (records : List α) : Bytes :=
  kind ++ (rid ++ ((eNumber records.length).take 2 ++ (pad :: layout.writeRecords filler 1 records)))

def number (i : Nat) (records : List α) : List α := (records.zipIdx i).map fun p => layout.numbered p.2 p.1

@[simp] theorem number_cons (i : Nat) (data : α) (rest : List α) :
    layout.number i (data :: rest) = layout.numbered i data :: layout.number (i + 1) rest := rfl

@[simp] theorem number_length (i : Nat) (records : List α) : (layout.number i records).length = records.length := by
  simp [number]

theorem sizes_length (data : α) : (layout.sizes data).length = fmt.texts := by
  rw [sizes, List.length_map, layout.length]

/-- One record, and the sizes of the next one when there are any. -/
theorem readRecords_succ {data : α} (hData : layout.Valid data) (filler : Nat → UInt8) (left i : Nat) (rest : Bytes) :
    fmt.readRecords (left + 1) i (layout.sizes data) (layout.body filler data ++ rest) =
      match safeRead fmt.texts rest with
      | none => some (layout.numbered i data :: List.replicate left fmt.blank)
      | some (sizes, fh) => (fmt.readRecords left (i + 1) sizes fh).map (layout.numbered i data :: ·) := by
  have hSize : (blockOf fmt.dataSize (layout.entries data) filler).length = fmt.dataSize := block_length _ _ _
  have hBlock := safeRead_append hSize rest
  rw [Format.readRecords, sizes, body, List.append_assoc, readTexts_write hData.texts]
  simp only [Option.bind_eq_bind, Option.bind_some, hBlock, layout.decode i data filler hData.values]
  cases safeRead fmt.texts rest with
  | none => rfl
  | some next =>
      obtain ⟨sizes, fh⟩ := next
      dsimp only
      cases fmt.readRecords left (i + 1) sizes fh <;> rfl

/-- All records, of which the sizes of the first one have been read. -/
theorem readRecords_write (filler : Nat → Nat → UInt8) (tail : Bytes) (rest : List α) (data : α) (i : Nat)
    (hValid : ∀ record ∈ data :: rest, layout.Valid record) :
    fmt.readRecords (rest.length + 1) i (layout.sizes data)
      (layout.body (filler i) data ++ (layout.writeRecords filler (i + 1) rest ++ tail)) =
      some (layout.number i (data :: rest)) := by
  obtain ⟨hData, hRest⟩ := List.forall_mem_cons.mp hValid
  induction rest generalizing data i with
  | nil =>
      rw [layout.readRecords_succ hData]
      cases safeRead fmt.texts (layout.writeRecords filler (i + 1) [] ++ tail) <;> rfl
  | cons next rest ih =>
      obtain ⟨hNext, hOthers⟩ := List.forall_mem_cons.mp hRest
      rw [layout.readRecords_succ hData, writeRecords, List.append_assoc, List.append_assoc,
        safeRead_append (layout.sizes_length next)]
      dsimp only
      rw [List.length_cons, ih next (i + 1) hRest hNext hOthers]
      rfl

theorem number_eq_getElem? (i : Nat) (records : List α) (k : Nat) :
    (layout.number i records)[k]? = records[k]?.map (layout.numbered (i + k)) := by
  simp [number, List.getElem?_zipIdx, Function.comp_def]

theorem number_concat (i : Nat) (init : List α) (last : α) :
    layout.number i (init ++ [last]) = layout.number i init ++ [layout.numbered (i + init.length) last] := by
  simp [number, List.zipIdx_append]

/-- A record that marks the end is dropped before or after the records get their numbers. -/
theorem trim_number {records : List α} (hRecords : records ≠ []) (i : Nat) :
    fmt.trim (fmt.blank :: layout.number i records) = fmt.blank :: layout.number i (fmt.trim records) := by
  obtain ⟨init, last, rfl⟩ := (List.eq_nil_or_concat' records).resolve_left hRecords
  rw [number_concat, ← List.cons_append, Format.trim_concat, Format.trim_concat, layout.name]
  split
  case isTrue => rfl
  case isFalse => rw [number_concat, List.cons_append]

/-- What is written is read, under the numbers in the order of the records. -/
theorem read_written {records : List α} (hRecords : records ≠ []) (hCount : records.length < max2)
    (hValid : ∀ data ∈ records, layout.Valid data) {kind rid : Bytes} (hKind : kind.length = 3) (hRid : rid.length = 4)
    (pad : UInt8) (filler : Nat → Nat → UInt8) (tail : Bytes) :
    fmt.read (layout.write kind rid pad filler records ++ tail) =
      some ⟨rid, (eNumber records.length).take 2, fmt.blank :: layout.number 1 (fmt.trim records)⟩ := by
  cases records with
  | nil => exact absurd rfl hRecords
  | cons data rest =>
      obtain ⟨len, hLen⟩ : ∃ len, len = (eNumber (data :: rest).length).take 2 := ⟨_, rfl⟩
      have hLength : len.length = 2 := hLen ▸ rfl
      have hNumobj : number2 len 0 = rest.length + 1 := hLen ▸ number2_eNumber hCount
      have hRead := layout.readRecords_write filler tail rest data 1 hValid
      rw [write, ← hLen, writeRecords, Format.read]
      simp only [List.append_assoc, List.cons_append]
      rw [← hKind, List.drop_left, safeRead_append hRid]
      simp only [Option.bind_eq_bind, Option.bind_some, safeRead_append hLength, List.drop_one, List.tail_cons,
        safeRead_append (layout.sizes_length data), hNumobj, hRead]
      rw [layout.trim_number hRecords]
      rfl

/-- What is asked for is the record with this number, or the blank one where there is none. -/
theorem get_number {rid len : Bytes} (records : List α) (i : Nat) :
    fmt.get ⟨rid, len, fmt.blank :: layout.number 1 records⟩ (i + 1) =
      (records[i]?.map (layout.numbered (i + 1))).getD fmt.blank := by
  rw [Format.get_succ, number_eq_getElem?, Nat.add_comm]

/-- Files of these records are read as the records, whatever the bytes between the values and behind the records. -/
def ReadsBack : Prop :=
  ∀ records : List α, records ≠ [] → records.length < max2 → (∀ data ∈ records, layout.Valid data) →
    ∀ (kind rid : Bytes) (pad : UInt8) (filler : Nat → Nat → UInt8) (tail : Bytes), kind.length = 3 → rid.length = 4 →
      ∃ pub, fmt.read (layout.write kind rid pad filler records ++ tail) = some pub ∧ pub.rid = rid ∧
        pub.data.length = (fmt.trim records).length + 1 ∧ fmt.get pub 0 = fmt.blank ∧
        ∀ i, fmt.get pub (i + 1) = ((fmt.trim records)[i]?.map (layout.numbered (i + 1))).getD fmt.blank

theorem readsBack : layout.ReadsBack := by
  intro records hRecords hCount hValid kind rid pad filler tail hKind hRid
  refine ⟨_, layout.read_written hRecords hCount hValid hKind hRid pad filler tail, rfl, ?_, rfl, layout.get_number _⟩
  rw [List.length_cons, number_length]

end Layout

/-- Items, NPCs, spells and classes that are written to a file are found there under their numbers. -/
theorem files_read_back :
    EIF.layout.ReadsBack ∧ ENF.layout.ReadsBack ∧ ESF.layout.ReadsBack ∧ ECF.layout.ReadsBack :=
  ⟨EIF.layout.readsBack, ENF.layout.readsBack, ESF.layout.readsBack, ECF.layout.readsBack⟩

/-- The table of NPCs has the size that the world goes by. -/
theorem npc_file_size {records : List ENFData} (hRecords : records ≠ []) (hCount : records.length < max2)
    (hValid : ∀ data ∈ records, ENF.layout.Valid data) {kind rid : Bytes} (hKind : kind.length = 3)
    (hRid : rid.length = 4) (pad : UInt8) (filler : Nat → Nat → UInt8) (tail : Bytes) :
    (ENF.read (ENF.layout.write kind rid pad filler records ++ tail)).map (·.data.length) =
      some (PubFiles.NpcFile.mk (records.map ENFData.name)).dataSize := by
  rw [ENF.layout.read_written hRecords hCount hValid hKind hRid, Option.map_some, List.length_cons, Layout.number_length]
  obtain ⟨init, last, rfl⟩ := (List.eq_nil_or_concat' records).resolve_left hRecords
  rw [PubFiles.NpcFile.dataSize, List.map_append, List.map_singleton, List.getLast?_concat, Format.trim_concat]
  by_cases hMark : last.name = bytes "eof".toList
  · rw [if_pos (show ENF.name last = _ from hMark), if_pos (congrArg some hMark)]
    simp
  · rw [if_neg (show ENF.name last ≠ _ from hMark), if_neg (fun h => hMark (Option.some.inj h))]
    simp

section Records

variable {α : Type} (fmt : Format α)

/-- What the loop leaves are records that have been read, and blank ones behind them. -/
theorem readRecords_eq {left i : Nat} {sizes fh : Bytes} {data : List α}
    (h : fmt.readRecords left i sizes fh = some data) :
    ∃ records rest, records.length + rest = left ∧ data = records ++ List.replicate rest fmt.blank ∧
      ∀ j < records.length, ∃ texts buf, records[j]? = some (fmt.decode (i + j) texts buf) := by
  induction left generalizing i sizes fh data with
  | zero =>
      cases h
      exact ⟨[], 0, rfl, rfl, fun j hj => absurd hj (Nat.not_lt_zero j)⟩
  | succ left ih =>
      simp only [Format.readRecords, Option.bind_eq_bind, Option.bind_eq_some_iff] at h
      obtain ⟨⟨texts, fh⟩, -, ⟨buf, fh⟩, -, h⟩ := h
      dsimp only at h
      split at h
      case h_1 =>
          cases h
          refine ⟨[fmt.decode i texts buf], left, by rw [List.length_singleton, Nat.add_comm], rfl, ?_⟩
          intro j hj
          obtain rfl : j = 0 := Nat.lt_one_iff.mp hj
          exact ⟨texts, buf, rfl⟩
      case h_2 sizes fh _ =>
          obtain ⟨later, hLater, hData⟩ := Option.bind_eq_some_iff.mp h
          obtain ⟨records, rest, hLength, rfl, hRecords⟩ := ih hLater
          cases hData
          refine ⟨fmt.decode i texts buf :: records, rest, by rw [List.length_cons]; omega, rfl, ?_⟩
          intro j hj
          cases j with
          | zero => exact ⟨texts, buf, rfl⟩
          | succ j =>
              obtain ⟨texts, buf, hRecord⟩ := hRecords j (Nat.succ_lt_succ_iff.mp hj)
              rw [Nat.add_right_comm] at hRecord
              exact ⟨texts, buf, hRecord⟩

/-- Whatever a file is, the records that were read have their numbers as their ids, and all others are blank. The
table is as large as the file says, or one less when there is a mark at its end. -/
def Format.Numbers (id : α → Int) : Prop :=
  ∀ file pub, fmt.read file = some pub →
    number2 pub.len 0 ≤ pub.data.length ∧ pub.data.length ≤ number2 pub.len 0 + 1 ∧
      ∃ count < pub.data.length, (∀ i, 1 ≤ i → i ≤ count → id (fmt.get pub i) = i) ∧
        ∀ i, i = 0 ∨ count < i → fmt.get pub i = fmt.blank

/-- The mark at the end can only be a record that was read. -/
theorem trim_eq {fmt : Format α} (hBlank : fmt.name fmt.blank ≠ bytes "eof".toList) (records : List α) (rest : Nat) :
    ∃ kept, kept <+: records ∧ records.length ≤ kept.length + 1 ∧
      fmt.trim (fmt.blank :: (records ++ List.replicate rest fmt.blank)) =
        fmt.blank :: (kept ++ List.replicate rest fmt.blank) := by
  cases rest with
  | zero =>
      rw [List.replicate_zero, List.append_nil]
      rcases List.eq_nil_or_concat' records with rfl | ⟨init, last, rfl⟩
      · refine ⟨[], List.prefix_rfl, Nat.zero_le _, ?_⟩
        have hAlone := fmt.trim_concat [] fmt.blank
        rwa [if_neg hBlank] at hAlone
      · rw [← List.cons_append, Format.trim_concat]
        split
        case isTrue => exact ⟨init, List.prefix_append init [last], by simp, by rw [List.append_nil]⟩
        case isFalse =>
            exact ⟨init ++ [last], List.prefix_rfl, Nat.le_succ _, by rw [List.append_nil, List.cons_append]⟩
  | succ rest =>
      refine ⟨records, List.prefix_rfl, Nat.le_succ _, ?_⟩
      rw [List.replicate_succ', ← List.append_assoc, ← List.cons_append, Format.trim_concat, if_neg hBlank]

/-- The ids of a table of records that have been read, with blank ones behind them. -/
theorem get_table {fmt : Format α} {id : α → Int} {rid len : Bytes} {records : List α} (rest : Nat)
    (hRecords : ∀ j < records.length, ∃ record, records[j]? = some record ∧ id record = (j + 1 : Nat)) :
    (∀ i, 1 ≤ i → i ≤ records.length →
        id (fmt.get ⟨rid, len, fmt.blank :: (records ++ List.replicate rest fmt.blank)⟩ i) = i) ∧
      ∀ i, i = 0 ∨ records.length < i →
        fmt.get ⟨rid, len, fmt.blank :: (records ++ List.replicate rest fmt.blank)⟩ i = fmt.blank := by
  constructor
  · intro i hMin hMax
    obtain ⟨j, rfl⟩ := Nat.exists_eq_add_of_le' hMin
    obtain ⟨record, hRecord, hId⟩ := hRecords j hMax
    rw [Format.get_succ, List.getElem?_append_left hMax, hRecord, Option.getD_some, hId]
  · intro i hi
    cases i with
    | zero => rfl
    | succ j =>
        have hBehind : records.length ≤ j := by omega
        rw [Format.get_succ, List.getElem?_append_right hBehind, List.getElem?_replicate]
        split <;> rfl

theorem numbers {fmt : Format α} {id : α → Int} (hId : ∀ i texts buf, id (fmt.decode i texts buf) = i)
    (hBlank : fmt.name fmt.blank ≠ bytes "eof".toList) : fmt.Numbers id := by
  intro file pub h
  simp only [Format.read, Option.bind_eq_bind, Option.bind_eq_some_iff] at h
  obtain ⟨⟨rid, fh⟩, -, ⟨len, fh⟩, -, ⟨sizes, fh⟩, -, data, hData, hPub⟩ := h
  obtain ⟨records, rest, hLength, rfl, hDecoded⟩ := readRecords_eq fmt hData
  obtain ⟨kept, hKept, hLess, hTrim⟩ := trim_eq hBlank records rest
  have hRecords : ∀ j < kept.length, ∃ record, kept[j]? = some record ∧ id record = (j + 1 : Nat) := by
    intro j hj
    obtain ⟨texts, buf, hRecord⟩ := hDecoded j (hj.trans_le hKept.length_le)
    refine ⟨fmt.decode (1 + j) texts buf, ?_, by rw [hId, Nat.add_comm]⟩
    rw [← hRecord, List.prefix_iff_getElem?.mp hKept j hj, List.getElem?_eq_getElem hj]
  have hMore := hKept.length_le
  obtain rfl := Option.some.inj hPub
  dsimp only at hLength ⊢
  rw [hTrim, List.length_cons, List.length_append, List.length_replicate]
  exact ⟨by omega, by omega, kept.length, by omega, get_table rest hRecords⟩

/-- The tables of all kinds. -/
theorem tables_numbered :
    EIF.Numbers EIFData.id ∧ ENF.Numbers ENFData.id ∧ ESF.Numbers ESFData.id ∧ ECF.Numbers ECFData.id := by
  refine ⟨numbers ?_ ?_, numbers ?_ ?_, numbers ?_ ?_, numbers ?_ ?_⟩
  all_goals first | exact fun _ _ _ => rfl | decide

end Records

end Etheos.EOData
