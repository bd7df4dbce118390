import Atomr.Remote.AkkaProtocol
import Atomr.Library.Runs

/-! Which association requests the handshake layer answers.

A request is answered when its origin was never answered before. The end of an association
forgets the peer and its uid, and not that it was answered, so a peer that comes back is
associated without a reply.
-/

namespace Atomr.Remote

open Atomr.Core Library

inductive PeerEvent where
  | accepted (key : String)
  | ended (key : String)
  deriving DecidableEq, Repr

/-- The layer with a log of its peers, the newest event first. The layer does not read the log. -/
structure Exchange where
  protocol : AkkaProtocolTransport
  log : List PeerEvent

inductive ExchangeAction where
  | frame (received : InboundFrame)
  | disassociate (target : Address) (reason : DisassociateReason)

def peerEvents (requireCookie : Option String) (frame : InboundFrame) : List PeerEvent :=
  match AkkaProtocolTransport.admits requireCookie frame.pdu, frame.pdu with
  | some key, _ => [.accepted key]
  | none, .disassociate _ => [.ended frame.sender.display]
  | none, _ => []

namespace Exchange

def start (requireCookie : Option String) (localUid : UInt64) (localAddress : Option Address) : Exchange :=
  ⟨.new requireCookie localUid localAddress, []⟩

def step (exchange : Exchange) : ExchangeAction → Option Exchange
  | .frame received => some
    { protocol := (exchange.protocol.dispatchFrame received).next
      log := peerEvents exchange.protocol.requireCookie received ++ exchange.log }
  | .disassociate target reason => some
    { protocol := (exchange.protocol.disassociate target reason).next
      log := .ended target.display :: exchange.log }

variable (log : List PeerEvent)

/-- No request was accepted since the start, or since the peer was last disassociated. -/
def Awaits (key : String) : Prop := .accepted key ∉ log.takeWhile (· ≠ .ended key)
deriving Decidable

/-- A request was accepted before the peer was last disassociated. -/
def ComesBack (key : String) : Prop := .accepted key ∈ log.dropWhile (· ≠ .ended key)
deriving Decidable

theorem not_accepted_iff (k : String) : .accepted k ∉ log ↔ Awaits log k ∧ ¬ ComesBack log k := by
  rw [Awaits, ComesBack, ← not_or, ← List.mem_append, List.takeWhile_append_dropWhile]

end Exchange

namespace AkkaProtocolTransport

def Acceptable (requireCookie : Option String) (info : AssociateInfo) : Prop :=
  info.protocolVersion = PROTOCOL_VERSION ∧ (requireCookie.isSome → requireCookie = info.cookie)
deriving Decidable

variable {p : AkkaProtocolTransport} {info : AssociateInfo}

theorem dispatchFrame_of_acceptable (acc : Acceptable p.requireCookie info) (snd : Address) :
    p.dispatchFrame ⟨snd, .associate info⟩ = p.accept info := by
  obtain ⟨ver, cookie⟩ := acc
  have matching : ¬ (p.requireCookie.isSome ∧ p.requireCookie ≠ info.cookie) :=
    fun refused => refused.2 (cookie refused.1)
  rw [dispatchFrame]
  dsimp only
  rw [if_neg (not_not.mpr ver), if_neg matching]

theorem dispatchFrame_next_of_refused (refused : ¬ Acceptable p.requireCookie info) (snd : Address) :
    (p.dispatchFrame ⟨snd, .associate info⟩).next = p := by
  rw [dispatchFrame]
  dsimp only
  split
  · rfl
  next ver =>
    split
    · rfl
    next cookie =>
      have matching : p.requireCookie.isSome → p.requireCookie = info.cookie :=
        fun required => not_not.mp fun differs => cookie ⟨required, differs⟩
      exact absurd ⟨not_not.mp ver, matching⟩ refused

/-- A request that passes the checks marks its origin as answered; nothing else touches the marks. -/
theorem associateReplied_dispatchFrame (p : AkkaProtocolTransport) (f : InboundFrame) (k : String) :
    k ∈ (p.dispatchFrame f).next.associateReplied ↔
      .accepted k ∈ peerEvents p.requireCookie f ∨ k ∈ p.associateReplied := by
  obtain ⟨snd, pdu⟩ := f
  cases pdu with
  | associate info =>
    by_cases acc : Acceptable p.requireCookie info
    · have adm : admits p.requireCookie (.associate info) = some info.origin.display := if_pos acc
      rw [dispatchFrame_of_acceptable acc, peerEvents, adm]
      simp [accept]
    · have refused : admits p.requireCookie (.associate info) = none := if_neg acc
      rw [dispatchFrame_next_of_refused acc, peerEvents, refused]
      simp
  | disassociate reason => simp [dispatchFrame, peerEvents, admits]
  | heartbeat => simp [dispatchFrame, peerEvents, admits]
  | payload env => simp [dispatchFrame, peerEvents, admits]
  | ack info => simp [dispatchFrame, peerEvents, admits]

theorem localAddress_dispatchFrame (p : AkkaProtocolTransport) (f : InboundFrame) :
    (p.dispatchFrame f).next.localAddress = p.localAddress := by
  unfold dispatchFrame
  split
  · split
    · rfl
    · split <;> rfl
  all_goals rfl

/-- A request that passes the checks is answered when its origin has no mark and the own
address is known. -/
theorem answers_accept_iff (p : AkkaProtocolTransport) (info : AssociateInfo) :
    (∃ reply, (p.accept info).sent = [(info.origin, .associate reply)]) ↔
      p.localAddress.isSome ∧ info.origin.display ∉ p.associateReplied := by
  unfold accept
  cases p.localAddress with
  | none => simp
  | some own =>
    by_cases marked : info.origin.display ∈ p.associateReplied
    · simp [marked]
    · simp [marked, ownAssociate]

end AkkaProtocolTransport

namespace Exchange

open AkkaProtocolTransport

structure Marked (requireCookie : Option String) (localAddress : Option Address) (exchange : Exchange) : Prop where
  cookie : exchange.protocol.requireCookie = requireCookie
  own : exchange.protocol.localAddress = localAddress
  replied : ∀ key, key ∈ exchange.protocol.associateReplied ↔ .accepted key ∈ exchange.log

variable {requireCookie : Option String} {localUid : UInt64} {localAddress : Option Address}

theorem marked_step {exchange next : Exchange} {act : ExchangeAction}
    (marked : Marked requireCookie localAddress exchange) (taken : exchange.step act = some next) :
    Marked requireCookie localAddress next := by
  cases act with
  | frame recv =>
    cases taken
    constructor
    · exact (requireCookie_dispatchFrame _ _).trans marked.cookie
    · exact (localAddress_dispatchFrame _ _).trans marked.own
    · intro k
      rw [associateReplied_dispatchFrame, marked.replied, List.mem_append]
  | disassociate tgt reason =>
    cases taken
    refine ⟨marked.cookie, marked.own, fun k => (marked.replied k).trans ?_⟩
    simp

/-- After any frames and disassociations, an acceptable request is answered exactly when the own
address is known, the origin awaits a reply and it was never associated before it was last
disassociated. -/
theorem request_answered_iff {actions : List ExchangeAction} {exchange : Exchange}
    (run : Run step (fun _ _ => True) (start requireCookie localUid localAddress) actions exchange)
    (sender : Address) {info : AssociateInfo} (acceptable : Acceptable requireCookie info) :
    (∃ reply, (exchange.protocol.dispatchFrame ⟨sender, .associate info⟩).sent = [(info.origin, .associate reply)]) ↔
      localAddress.isSome ∧ Awaits exchange.log info.origin.display ∧
        ¬ ComesBack exchange.log info.origin.display := by
  have marked := run.invariant (Marked requireCookie localAddress)
    (fun _ _ _ held _ taken => marked_step held taken) ⟨rfl, rfl, fun key => by simp [start, new]⟩
  rw [← not_accepted_iff, ← marked.replied, ← marked.own, ← answers_accept_iff]
  rw [dispatchFrame_of_acceptable (marked.cookie.symm ▸ acceptable)]

def associateAndLeave (peer : Address) : List ExchangeAction :=
  [.frame ⟨peer, .associate ⟨peer, 7, none, 1⟩⟩, .frame ⟨peer, .disassociate .normal⟩]

/-- Another peer is answered after that one left. -/
theorem request_answered_first :
    let own : Address := .remote "akka.tcp" "own" "10.0.0.1" 2552
    let peer : Address := .remote "akka.tcp" "peer" "10.0.0.2" 2552
    let other : Address := .remote "akka.tcp" "other" "10.0.0.3" 2552
    ∃ exchange, Run step (fun _ _ => True) (start none 1 (some own)) (associateAndLeave peer) exchange ∧
      ∃ reply, (exchange.protocol.dispatchFrame ⟨other, .associate ⟨other, 8, none, 1⟩⟩).sent =
        [(other, .associate reply)] := by
  intro own peer other
  have acceptable : Acceptable none ⟨other, 8, none, 1⟩ := by decide
  refine Run.executed rfl fun run => (request_answered_iff run other acceptable).mpr ?_
  decide +kernel

/-- The peer awaits a reply to its second request and gets none. -/
theorem reconnect_not_answered :
    let own : Address := .remote "akka.tcp" "own" "10.0.0.1" 2552
    let peer : Address := .remote "akka.tcp" "peer" "10.0.0.2" 2552
    ∃ exchange, Run step (fun _ _ => True) (start none 1 (some own)) (associateAndLeave peer) exchange ∧
      Awaits exchange.log peer.display ∧
      (exchange.protocol.dispatchFrame ⟨peer, .associate ⟨peer, 7, none, 1⟩⟩).sent = [] :=
  Run.exists_of_foldlM (by decide +kernel)

end Exchange

end Atomr.Remote
