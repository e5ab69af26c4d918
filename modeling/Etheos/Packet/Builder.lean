import Etheos.Packet.Processor

/-! Assembly of outgoing packets. -/
namespace Etheos

open PacketProcessor

/-- `addSize` is announced in the length bytes without being part of the
payload. The server announces the size of an uploaded file in this way. -/
structure PacketBuilder where
  id : UInt16
  data : Bytes
  addSize : Nat
  deriving Repr, DecidableEq

/-- Every occurrence of the break character is replaced by a `y`. -/
def replaceBreaks (str : Bytes) (breakchar : UInt8) : Bytes :=
  str.map fun c => if c = breakchar then 121 else c

namespace PacketBuilder

def setID (builder : PacketBuilder) (id : UInt16) : PacketBuilder :=
  { builder with id := if id = 0 then pid packetFInit packetAInit else id }

def new (family action : UInt8) : PacketBuilder := setID ⟨0, [], 0⟩ (pid family action)

/-- `this->data += bytes`. -/
def append (builder : PacketBuilder) (bytes : Bytes) : PacketBuilder :=
  { builder with data := builder.data ++ bytes }

def addByte (builder : PacketBuilder) (byte : UInt8) : PacketBuilder := builder.append [byte]

def addChar (builder : PacketBuilder) (num : UInt8) : PacketBuilder :=
  builder.append ((eNumber num.toNat).take 1)

def addShort (builder : PacketBuilder) (num : UInt16) : PacketBuilder :=
  builder.append ((eNumber num.toNat).take 2)

def addThree (builder : PacketBuilder) (num : UInt32) : PacketBuilder :=
  builder.append ((eNumber num.toNat).take 3)

def addInt (builder : PacketBuilder) (num : UInt32) : PacketBuilder :=
  builder.append ((eNumber num.toNat).take 4)

def addString (builder : PacketBuilder) (str : Bytes) : PacketBuilder := builder.append str

def addBreakString (builder : PacketBuilder) (str : Bytes) (breakchar : UInt8) : PacketBuilder :=
  builder.append (replaceBreaks str breakchar ++ [breakchar])

def withAddSize (builder : PacketBuilder) (size : Nat) : PacketBuilder :=
  { builder with addSize := builder.addSize + size }

def reset (builder : PacketBuilder) : PacketBuilder := { builder with data := [] }

/-- The length is converted to an unsigned int, and two of its four bytes are
sent. -/
def get (builder : PacketBuilder) : Bytes :=
  (eNumber ((builder.data.length + 2 + builder.addSize) % 2 ^ 32)).take 2 ++
    epid builder.id ++ builder.data

@[simp] theorem append_id (builder : PacketBuilder) (bytes : Bytes) :
    (builder.append bytes).id = builder.id := rfl

@[simp] theorem append_data (builder : PacketBuilder) (bytes : Bytes) :
    (builder.append bytes).data = builder.data ++ bytes := rfl

@[simp] theorem get_length (builder : PacketBuilder) :
    builder.get.length = builder.data.length + 4 := by
  simp [get, epid]
  omega

/-- Behind the length bytes stand the action, the family and the payload. -/
theorem get_drop_two (builder : PacketBuilder) :
    builder.get.drop 2 = epid builder.id ++ builder.data := by
  simp [get, eNumber]

end PacketBuilder

end Etheos
