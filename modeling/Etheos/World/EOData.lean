import Etheos.Config.Config
import Etheos.General.Layout
import Etheos.Map.Load

/-! The data files of items, NPCs, spells and classes. -/
namespace Etheos.EOData

open General
open Characters (toShort)
open ConfigFiles (bytes)
open MapFiles (number1 number2 number3)

/-- `SAFE_READ`. Without success the server ends. -/
def safeRead (count : Nat) (fh : Bytes) : Option (Bytes × Bytes) :=
  if count ≤ fh.length then some (fh.take count, fh.drop count) else none

/-- What the kinds of files differ in. There are one or two texts in front of the block of a record. -/
structure Format (α : Type) where
  texts : Nat
  dataSize : Nat
  /-- What the constructor of a record makes. -/
  blank : α
  decode : Nat → List Bytes → Bytes → α
  name : α → Bytes

structure Pub (α : Type) where
  rid : Bytes
  len : Bytes
  data : List α
  deriving DecidableEq

/-- The texts, of which the sizes have been read. -/
def readTexts : List UInt8 → Bytes → Option (List Bytes × Bytes)
  | [], fh => some ([], fh)
  | size :: sizes, fh => do
      let (text, fh) ← safeRead (PacketProcessor.digit size) fh
      let (texts, fh) ← readTexts sizes fh
      return (text :: texts, fh)

namespace Format

variable {α : Type} (fmt : Format α)

/-- The loop over the records, from number `i` on. The sizes of the texts have been read before. Where there are no
more of them, the records that are left stay as they are. -/
def readRecords : Nat → Nat → Bytes → Bytes → Option (List α)
  | 0, _, _, _ => some []
  | left + 1, i, sizes, fh => do
      let (texts, fh) ← readTexts sizes fh
      let (buf, fh) ← safeRead fmt.dataSize fh
      let newdata := fmt.decode i texts buf
      match safeRead fmt.texts fh with
      | none => return newdata :: List.replicate left fmt.blank
      | some (sizes, fh) => return newdata :: (← readRecords left (i + 1) sizes fh)

/-- The last record may be there to mark the end. -/
def trim (data : List α) : List α :=
  if data.getLast?.any (fmt.name · = bytes "eof".toList) then data.dropLast else data

/-- `Read` of a file that there is. The three bytes of the kind, and the one behind the number of records, are not
looked at. -/
def read (file : Bytes) : Option (Pub α) := do
  let (rid, fh) ← safeRead 4 (file.drop 3)
  let (len, fh) ← safeRead 2 fh
  let numobj := number2 len 0
  let (sizes, fh) ← safeRead fmt.texts (fh.drop 1)
  let records ← fmt.readRecords numobj 1 sizes fh
  return ⟨rid, len, fmt.trim (fmt.blank :: records)⟩

/-- `Get`. -/
def get (pub : Pub α) (id : Nat) : α :=
  if id < pub.data.length then pub.data.getD id fmt.blank else pub.data.getD 0 fmt.blank

end Format

/-- `EIF_Data`. The values of the enumerations are numbers. -/
@[ext] structure EIFData where
  id : Int
  name : Bytes
  graphic : Int
  type : Int
  subtype : Int
  special : Int
  hp : Int
  tp : Int
  mindam : Int
  maxdam : Int
  accuracy : Int
  evade : Int
  armor : Int
  str : Int
  intl : Int
  wis : Int
  agi : Int
  con : Int
  cha : Int
  light : Int
  dark : Int
  earth : Int
  air : Int
  water : Int
  fire : Int
  scrollmap : Int
  scrollx : Int
  scrolly : Int
  levelreq : Int
  classreq : Int
  strreq : Int
  intreq : Int
  wisreq : Int
  agireq : Int
  conreq : Int
  chareq : Int
  weight : Int
  size : Int
  deriving DecidableEq

/-- `EIF::Ranged`. -/
def EIF.ranged : Int := 1

/-- The constructor. -/
def EIFData.blank : EIFData :=
  ⟨0, [], 0, 0, 0, 4, 0, 0, 0, 0, 0, 0, 0, 0, 0, 0, 0, 0, 0, 0, 0, 0, 0, 0, 0, 0, 0, 0, 0, 0, 0, 0, 0, 0, 0, 0, 0, 0⟩

/-- The gun is made a ranged weapon. -/
def EIF.isGun (id : Nat) (name : Bytes) : Prop := id = 365 ∧ name = bytes "Gun".toList

instance (id : Nat) (name : Bytes) : Decidable (EIF.isGun id name) := inferInstanceAs (Decidable (_ ∧ _))

def EIF.decode (i : Nat) (texts : List Bytes) (buf : Bytes) : EIFData where
  id := i
  name := texts.getD 0 []
  graphic := toShort (number2 buf 0)
  type := number1 buf 2
  subtype := if EIF.isGun i (texts.getD 0 []) then EIF.ranged else number1 buf 3
  special := number1 buf 4
  hp := toShort (number2 buf 5)
  tp := toShort (number2 buf 7)
  mindam := toShort (number2 buf 9)
  maxdam := toShort (number2 buf 11)
  accuracy := toShort (number2 buf 13)
  evade := toShort (number2 buf 15)
  armor := toShort (number2 buf 17)
  str := number1 buf 20
  intl := number1 buf 21
  wis := number1 buf 22
  agi := number1 buf 23
  con := number1 buf 24
  cha := number1 buf 25
  light := number1 buf 26
  dark := number1 buf 27
  earth := number1 buf 28
  air := number1 buf 29
  water := number1 buf 30
  fire := number1 buf 31
  scrollmap := number3 buf 32
  scrollx := number1 buf 35
  scrolly := number1 buf 36
  levelreq := toShort (number2 buf 37)
  classreq := toShort (number2 buf 39)
  strreq := toShort (number2 buf 41)
  intreq := toShort (number2 buf 43)
  wisreq := toShort (number2 buf 45)
  agireq := toShort (number2 buf 47)
  conreq := toShort (number2 buf 49)
  chareq := toShort (number2 buf 51)
  weight := number1 buf 55
  size := number1 buf 57

def EIF : Format EIFData := ⟨1, 58, EIFData.blank, EIF.decode, EIFData.name⟩

/-- `ENF_Data`. -/
@[ext] structure ENFData where
  id : Int
  name : Bytes
  graphic : Int
  boss : Int
  child : Int
  type : Int
  vendorId : Int
  hp : Int
  exp : Int
  mindam : Int
  maxdam : Int
  accuracy : Int
  evade : Int
  armor : Int
  deriving DecidableEq

def ENFData.blank : ENFData := ⟨0, [], 0, 0, 0, 0, 0, 0, 0, 0, 0, 0, 0, 0⟩

def ENF.decode (i : Nat) (texts : List Bytes) (buf : Bytes) : ENFData where
  id := i
  name := texts.getD 0 []
  graphic := number2 buf 0
  boss := toShort (number2 buf 3)
  child := toShort (number2 buf 5)
  type := number2 buf 7
  vendorId := toShort (number2 buf 9)
  hp := number3 buf 11
  mindam := toShort (number2 buf 16)
  maxdam := toShort (number2 buf 18)
  accuracy := toShort (number2 buf 20)
  evade := toShort (number2 buf 22)
  armor := toShort (number2 buf 24)
  exp := number3 buf 36

def ENF : Format ENFData := ⟨1, 39, ENFData.blank, ENF.decode, ENFData.name⟩

/-- `ESF_Data`. -/
@[ext] structure ESFData where
  id : Int
  name : Bytes
  shout : Bytes
  icon : Int
  graphic : Int
  tp : Int
  sp : Int
  castTime : Int
  type : Int
  targetRestrict : Int
  target : Int
  mindam : Int
  maxdam : Int
  accuracy : Int
  hp : Int
  deriving DecidableEq

/-- A blank spell does damage. -/
def ESFData.blank : ESFData := ⟨0, [], [], 0, 0, 0, 0, 0, 1, 0, 0, 0, 0, 0, 0⟩

def ESF.decode (i : Nat) (texts : List Bytes) (buf : Bytes) : ESFData where
  id := i
  name := texts.getD 0 []
  shout := texts.getD 1 []
  icon := toShort (number2 buf 0)
  graphic := toShort (number2 buf 2)
  tp := toShort (number2 buf 4)
  sp := toShort (number2 buf 6)
  castTime := number1 buf 8
  type := number1 buf 11
  targetRestrict := number1 buf 17
  target := number1 buf 18
  mindam := toShort (number2 buf 23)
  maxdam := toShort (number2 buf 25)
  accuracy := toShort (number2 buf 27)
  hp := toShort (number2 buf 34)

def ESF : Format ESFData := ⟨2, 51, ESFData.blank, ESF.decode, ESFData.name⟩

/-- `ECF_Data`. -/
@[ext] structure ECFData where
  id : Int
  name : Bytes
  base : Int
  type : Int
  str : Int
  intl : Int
  wis : Int
  agi : Int
  con : Int
  cha : Int
  deriving DecidableEq

def ECFData.blank : ECFData := ⟨0, [], 4, 4, 0, 0, 0, 0, 0, 0⟩

def ECF.decode (i : Nat) (texts : List Bytes) (buf : Bytes) : ECFData where
  id := i
  name := texts.getD 0 []
  base := number1 buf 0
  type := number1 buf 1
  str := toShort (number2 buf 2)
  intl := toShort (number2 buf 4)
  wis := toShort (number2 buf 6)
  agi := toShort (number2 buf 8)
  con := toShort (number2 buf 10)
  cha := toShort (number2 buf 12)

def ECF : Format ECFData := ⟨1, 14, ECFData.blank, ECF.decode, ECFData.name⟩

end Etheos.EOData
