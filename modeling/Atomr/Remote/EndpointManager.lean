import Atomr.Remote.AkkaProtocol
import Atomr.Remote.Endpoint

/-! The endpoint manager: one association state and at most one endpoint for each peer.

An event of the handshake layer changes the tables and sends messages to
endpoints. The messages are returned as effects, since the endpoints run as
tasks of their own.
-/

namespace Atomr.Remote

open Atomr.Core Library

inductive AssociationState where
  | idle
  | pending
  | connected
  | quarantined
  | tombstoned
  deriving DecidableEq, Repr

structure PeerEntry where
  state : AssociationState
  stateSince : Nat
  attempt : UInt32
  deriving DecidableEq, Repr

def PeerEntry.new (now : Nat) : PeerEntry := ⟨.idle, now, 0⟩

/-- Enter a state; a connection resets the count of reconnect attempts. -/
def PeerEntry.transition (entry : PeerEntry) (now : Nat) (next : AssociationState) : PeerEntry :=
  { entry with
    state := next
    stateSince := now
    attempt := if next = .connected then 0 else entry.attempt }

inductive EndpointEffect where
  | spawn (handle : EndpointHandle)
  | resend (handle : EndpointHandle)
  | shutdown (handle : EndpointHandle) (reason : DisassociateReason)
  | deliver (handle : EndpointHandle) (pdu : InboundPdu)
  deriving DecidableEq, Repr

structure EndpointManager where
  endpoints : Table String EndpointHandle
  peers : Table String PeerEntry

namespace EndpointManager

def new : EndpointManager := ⟨∅, ∅⟩

/-- Move the entry of a peer to a state, creating it first when it is new. -/
def transition (m : EndpointManager) (now : Nat) (key : String) (next : AssociationState) : EndpointManager :=
  { m with peers := m.peers.upsert key fun held => (held.getD (PeerEntry.new now)).transition now next }

def inboundPdu : AkkaPdu → Option InboundPdu
  | .payload envelope => some (.payload envelope)
  | .ack info => some (.ack info)
  | _ => none

def dispatchEvent (m : EndpointManager) (now : Nat) (event : ProtocolEvent) :
    EndpointManager × List EndpointEffect :=
  match event with
  | .associated address uid =>
    let key := address.display
    let m := m.transition now key .connected
    match m.endpoints.lookup key with
    | none =>
      let handle : EndpointHandle := ⟨address, uid⟩
      ({ m with endpoints := m.endpoints.insert key handle }, [.spawn handle])
    -- A reused association replays its unacknowledged window.
    | some handle => (m, [.resend handle])
  | .disassociated peer reason =>
    let key := peer.display
    let effects := (m.endpoints.lookup key).toList.map fun handle => .shutdown handle reason
    let m := { m with endpoints := m.endpoints.erase key }
    (m.transition now key (if reason = .quarantined then .quarantined else .idle), effects)
  | .payload sender pdu =>
    match inboundPdu pdu, m.endpoints.lookup sender.display with
    | some inbound, some handle => (m, [.deliver handle inbound])
    | _, _ => (m, [])

variable {ev : ProtocolEvent} {m : EndpointManager} {t : Nat}

theorem mem_endpoints_dispatchEvent {k : String} (opened : k ∈ (m.dispatchEvent t ev).1.endpoints) :
    k ∈ m.endpoints ∨ ∃ addr uid, ev = .associated addr uid ∧ addr.display = k := by
  cases ev with
  | associated addr uid =>
    simp only [dispatchEvent] at opened
    split at opened
    · rcases (AList.mem_insert _).mp opened with eq | known
      · exact Or.inr ⟨addr, uid, rfl, eq.symm⟩
      · exact Or.inl known
    · exact Or.inl opened
  | disassociated pr reason => exact Or.inl (AList.mem_erase.mp opened).2
  | payload snd pdu =>
    simp only [dispatchEvent] at opened
    split at opened <;> exact Or.inl opened

theorem deliver_dispatchEvent {handle : EndpointHandle} {inbound : InboundPdu}
    (del : .deliver handle inbound ∈ (m.dispatchEvent t ev).2) :
    ∃ snd pdu, ev = .payload snd pdu ∧ inboundPdu pdu = some inbound
      ∧ m.endpoints.lookup snd.display = some handle := by
  cases ev with
  | associated addr uid =>
    simp only [dispatchEvent] at del
    split at del <;> simp at del
  | disassociated pr reason => simp [dispatchEvent] at del
  | payload snd pdu =>
    simp only [dispatchEvent] at del
    split at del
    next found known =>
      obtain ⟨rfl, rfl⟩ : handle = _ ∧ inbound = _ := by simpa using del
      exact ⟨snd, pdu, rfl, found, known⟩
    · simp at del

end EndpointManager

end Atomr.Remote
