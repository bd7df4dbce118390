import Atomr.Core.Address

/-! Protocol data units, the frames two systems exchange over an association.

Sequence numbers are natural numbers here; where the program can wrap one, the
modulus is written out.
-/

namespace Atomr.Remote

open Atomr.Core

structure RemoteEnvelope where
  recipientPath : String
  senderPath : Option String
  senderUid : UInt64
  recipientUid : UInt64
  seqNo : Nat
  serializerId : UInt32
  manifest : String
  system : Bool
  payload : List UInt8
  deriving DecidableEq, Repr

/-- Everything up to `cumulativeAck` has arrived; `nacks` asks for numbers again. -/
structure AckInfo where
  cumulativeAck : Nat
  nacks : List Nat
  deriving DecidableEq, Repr

structure AssociateInfo where
  origin : Address
  uid : UInt64
  cookie : Option String
  protocolVersion : UInt32
  deriving DecidableEq, Repr

inductive DisassociateReason where
  | normal
  | handshakeFailure (reason : String)
  | quarantined
  | other (reason : String)
  deriving DecidableEq, Repr

inductive AkkaPdu where
  | associate (info : AssociateInfo)
  | disassociate (reason : DisassociateReason)
  | heartbeat
  | payload (envelope : RemoteEnvelope)
  | ack (info : AckInfo)
  deriving DecidableEq, Repr

def PROTOCOL_VERSION : UInt32 := 1

/-- A frame read from a connection, attributed to the peer of that connection. -/
structure InboundFrame where
  sender : Address
  pdu : AkkaPdu
  deriving DecidableEq, Repr

end Atomr.Remote
