import Etheos.General.RingBuffer
import Etheos.Packet.Processor

/-! The receiving side of a connection. -/
namespace Etheos

open General

structure Client where
  recvBuffer : RingBuffer UInt8
  deriving Repr, DecidableEq

namespace Client

/-- The size of the block that is handed to the socket. -/
def blockSize : Nat := 8192

/-- A client whose buffer has been given a size. -/
def setRecvBuffer (size : Nat) : Client := ⟨RingBuffer.empty size⟩

def recv (client : Client) (length : Nat) : Bytes × Client :=
  let (ret, recvBuffer) := client.recvBuffer.take length
  (ret, { client with recvBuffer := recvBuffer })

/-- The number of bytes that the socket may return. -/
def toRecv (client : Client) : Nat := min client.recvBuffer.free blockSize

/-- The client is closed when the socket returns nothing, and never asked for
more than `toRecv` bytes. -/
def doRecv (client : Client) (buf : Bytes) : Option Client :=
  if buf ≠ [] ∧ buf.length ≤ client.toRecv then
    some { client with recvBuffer := client.recvBuffer.put buf }
  else none

end Client

end Etheos
