import Atomr.Remote.AckedDelivery

/-! The two tasks of an endpoint.

The writer numbers, buffers and sends envelopes and applies acknowledgements.
The reader passes on what is new and reports what has arrived. A writer that
stops has dropped its buffer.
-/

namespace Atomr.Remote

open Atomr.Core

structure EndpointHandle where
  remote : Address
  remoteUid : UInt64
  deriving DecidableEq, Repr

inductive EndpointCmd where
  | send (envelope : RemoteEnvelope)
  | sendSystem (envelope : RemoteEnvelope)
  | resendBuffer
  | applyAck (ack : AckInfo)
  | shutdown (reason : DisassociateReason)
  deriving DecidableEq, Repr

inductive InboundPdu where
  | payload (envelope : RemoteEnvelope)
  | ack (info : AckInfo)
  deriving DecidableEq, Repr

structure EndpointWriter where
  seq : Nat
  sendBuf : AckedSendBuffer

namespace EndpointWriter

def new (ackWindow : Nat) : EndpointWriter := ⟨0, .new ackWindow⟩

variable (w : EndpointWriter)

/-- Number an envelope, buffer it and send it. An envelope that the full buffer hands back is
sent all the same. -/
def transmit (envelope : RemoteEnvelope) : EndpointWriter × RemoteEnvelope :=
  let numbered := { envelope with seqNo := SeqNo.advance w.seq }
  let buffered := match w.sendBuf.push numbered with
    | .ok next => next
    | .error _ => w.sendBuf
  (⟨numbered.seqNo, buffered⟩, numbered)

theorem transmit_of_room {w : EndpointWriter} (env : RemoteEnvelope) (room : w.sendBuf.isFull = false)
    (fresh : w.seq + 1 < 2 ^ 64) :
    let numbered := { env with seqNo := w.seq + 1 }
    w.transmit env
      = (⟨w.seq + 1, { w.sendBuf with pending := w.sendBuf.pending.insert (w.seq + 1) numbered }⟩, numbered) := by
  have next : SeqNo.advance w.seq = w.seq + 1 := Nat.mod_eq_of_lt fresh
  simp [transmit, AckedSendBuffer.push, room, next]

def handle : EndpointCmd → Option EndpointWriter × List AkkaPdu
  | .send envelope | .sendSystem envelope =>
    let transmitted := w.transmit envelope
    (some transmitted.1, [.payload transmitted.2])
  | .applyAck ack => (some { w with sendBuf := w.sendBuf.applyAck ack }, [])
  | .resendBuffer =>
    let drained := w.sendBuf.drainResend
    (some { w with sendBuf := drained.2 }, drained.1.map .payload)
  -- The task ends, and what it had buffered is gone with it.
  | .shutdown reason => (none, [.disassociate reason])

end EndpointWriter

structure EndpointReader where
  recvBuf : AckedReceiveBuffer

namespace EndpointReader

def new : EndpointReader := ⟨.new⟩

variable (r : EndpointReader)

def handle : InboundPdu → EndpointReader × List RemoteEnvelope × List EndpointCmd
  | .payload envelope =>
    let seen := r.recvBuf.observe envelope.seqNo
    (⟨seen.2⟩, if seen.1 then [envelope] else [], [])
  | .ack info => (r, [], [.applyAck info])

/-- The report sent at every tick once something has arrived in order. -/
def ackTick : Option AckInfo :=
  if 0 < r.recvBuf.ack.cumulativeAck then some r.recvBuf.ack else none

theorem eq_ack_of_mem_ackTick {ack : AckInfo} (sent : ack ∈ r.ackTick.toList) : ack = r.recvBuf.ack := by
  simp only [ackTick] at sent
  split at sent
  · exact List.mem_singleton.mp sent
  · exact absurd sent List.not_mem_nil

end EndpointReader

end Atomr.Remote
