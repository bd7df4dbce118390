import Atomr.Remote.Pdu
import Atomr.Library.Table
import Mathlib.Data.Finset.Insert
import Mathlib.Data.Finset.Erase

/-! The handshake layer above a raw transport.

Every frame the transport attributes to a peer passes through here. The layer
checks the version and the cookie of association requests, and turns the
frames into events for the endpoint manager. Peers are kept under the printed
form of their address.
-/

namespace Atomr.Remote

open Atomr.Core Library List

inductive ProtocolEvent where
  | associated (address : Address) (uid : UInt64)
  | disassociated (peer : Address) (reason : DisassociateReason)
  | payload (sender : Address) (pdu : AkkaPdu)
  deriving DecidableEq, Repr

structure AkkaProtocolTransport where
  requireCookie : Option String
  localUid : UInt64
  localAddress : Option Address
  peerUids : Table String UInt64
  associated : Finset String
  associateReplied : Finset String

structure Dispatched where
  next : AkkaProtocolTransport
  sent : List (Address × AkkaPdu)
  events : List ProtocolEvent

namespace AkkaProtocolTransport

def new (requireCookie : Option String) (localUid : UInt64) (localAddress : Option Address) :
    AkkaProtocolTransport :=
  ⟨requireCookie, localUid, localAddress, ∅, ∅, ∅⟩

/-- The association request this system sends, also as the reply to a peer's. -/
def ownAssociate (p : AkkaProtocolTransport) (origin : Address) : AkkaPdu :=
  .associate ⟨origin, p.localUid, p.requireCookie, PROTOCOL_VERSION⟩

def refuse (p : AkkaProtocolTransport) (origin : Address) (reason : String) : Dispatched :=
  ⟨p, [(origin, .disassociate (.handshakeFailure reason))], []⟩

def versionMismatch (version : UInt32) : String :=
  "protocol version mismatch: peer=" ++ version.toNat.repr ++ ", local=" ++ PROTOCOL_VERSION.toNat.repr

/-- A different nonzero uid under a known address. -/
def isRestart (previous : Option UInt64) (uid : UInt64) : Bool :=
  match previous with
  | some known => known != uid && uid != 0
  | none => false

/-- Accept a request: remember the peer, reply once, announce the association. -/
def accept (p : AkkaProtocolTransport) (info : AssociateInfo) : Dispatched :=
  let key := info.origin.display
  let restarted := isRestart (p.peerUids.lookup key) info.uid
  -- A repeated request is accepted again and not answered again.
  let reply := match p.localAddress with
    | some own => if key ∈ p.associateReplied then [] else [(info.origin, p.ownAssociate own)]
    | none => []
  { next := { p with
      peerUids := p.peerUids.insert key info.uid
      associated := insert key p.associated
      associateReplied := insert key p.associateReplied }
    sent := reply
    events := (if restarted then [.disassociated info.origin .quarantined] else [])
      ++ [.associated info.origin info.uid] }

def dispatchFrame (p : AkkaProtocolTransport) (frame : InboundFrame) : Dispatched :=
  match frame.pdu with
  | .associate info =>
    if info.protocolVersion ≠ PROTOCOL_VERSION then p.refuse info.origin (versionMismatch info.protocolVersion)
    else if p.requireCookie.isSome ∧ p.requireCookie ≠ info.cookie then p.refuse info.origin "cookie mismatch"
    else p.accept info
  | .disassociate reason =>
    let key := frame.sender.display
    ⟨{ p with associated := p.associated.erase key, peerUids := p.peerUids.erase key }, [],
      [.disassociated frame.sender reason]⟩
  | .heartbeat => ⟨p, [], []⟩
  -- Payloads and acknowledgements pass without a look at who is associated.
  | other => ⟨p, [], [.payload frame.sender other]⟩

/-- End an association from this side: the peer is told and forgotten. -/
def disassociate (p : AkkaProtocolTransport) (target : Address) (reason : DisassociateReason) : Dispatched :=
  ⟨{ p with associated := p.associated.erase target.display, peerUids := p.peerUids.erase target.display },
    [(target, .disassociate reason)], []⟩

/-- The printed origin of an association request that passes both checks. -/
def admits (requireCookie : Option String) : AkkaPdu → Option String
  | .associate info =>
    if info.protocolVersion = PROTOCOL_VERSION ∧ (requireCookie.isSome → requireCookie = info.cookie) then
      some info.origin.display
    else none
  | _ => none

theorem requireCookie_dispatchFrame (p : AkkaProtocolTransport) (f : InboundFrame) :
    (p.dispatchFrame f).next.requireCookie = p.requireCookie := by
  unfold dispatchFrame
  split
  · split
    · rfl
    · split <;> rfl
  all_goals rfl

variable {ev : ProtocolEvent} {p : AkkaProtocolTransport}

theorem mem_events_accept {info : AssociateInfo} (hem : ev ∈ (p.accept info).events) :
    ev = .disassociated info.origin .quarantined ∨ ev = .associated info.origin info.uid := by
  rcases mem_append.mp hem with rst | ann
  · split at rst
    · exact Or.inl (mem_singleton.mp rst)
    · exact absurd rst not_mem_nil
  · exact Or.inr (mem_singleton.mp ann)

/-- Only a request that passes the checks announces an association; a payload is passed on
under the sender the transport attributed it to. -/
theorem mem_events_dispatchFrame {f : InboundFrame} (hem : ev ∈ (p.dispatchFrame f).events) :
    (∃ pr reason, ev = .disassociated pr reason)
      ∨ (∃ addr uid, ev = .associated addr uid
          ∧ admits p.requireCookie f.pdu = some addr.display)
      ∨ ev = .payload f.sender f.pdu ∧ admits p.requireCookie f.pdu = none := by
  obtain ⟨snd, pdu⟩ := f
  cases pdu with
  | associate info =>
    simp only [dispatchFrame] at hem
    split at hem
    · exact absurd hem not_mem_nil
    next ver =>
      split at hem
      · exact absurd hem not_mem_nil
      next cookie =>
        have checked : info.protocolVersion = PROTOCOL_VERSION
            ∧ (p.requireCookie.isSome → p.requireCookie = info.cookie) := by
          push Not at ver cookie
          exact ⟨ver, cookie⟩
        rcases mem_events_accept hem with rst | ann
        · exact Or.inl ⟨_, _, rst⟩
        · exact Or.inr (Or.inl ⟨_, _, ann, if_pos checked⟩)
  | disassociate reason => exact Or.inl ⟨snd, reason, mem_singleton.mp hem⟩
  | heartbeat => exact absurd hem not_mem_nil
  | payload env => exact Or.inr (Or.inr ⟨mem_singleton.mp hem, rfl⟩)
  | ack info => exact Or.inr (Or.inr ⟨mem_singleton.mp hem, rfl⟩)

end AkkaProtocolTransport

end Atomr.Remote
