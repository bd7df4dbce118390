import Atomr.Cluster.SplitBrain
import Atomr.Cluster.VectorClock
import Atomr.Library.Runs

/-! The cluster daemon and a network of daemons.

A daemon handles one command at a time. What it sends goes to a pool that never
shrinks: a message of the pool may be delivered late, again, or not at all.
-/

namespace Atomr.Cluster

open Atomr.Core Library

inductive GossipPdu where
  | status (sender : String) (version : VectorClock)
  | envelope (sender : String) (version : VectorClock) (state : MembershipState)
  | merge (sender : String) (version : VectorClock)

inductive GossipDecision where
  | sendEnvelope
  | requestMerge
  | mergeBoth
  | same
  deriving DecidableEq, Repr

def decideGossip (ours theirs : VectorClock) : GossipDecision :=
  match ours.compare theirs with
  | .same => .same
  | .after => .sendEnvelope
  | .before => .requestMerge
  | .concurrent => .mergeBoth

/-- The first peer from the cursor on, around the list, that is not this node. -/
def pickGossipTarget (peers : List Address) (selfAddr : Address) (cursor : Nat) : Option Address :=
  (List.range peers.length).findSome? fun offset =>
    (peers[(cursor + offset) % peers.length]?).filter (· ≠ selfAddr)

structure Daemon where
  selfAddr : Address
  state : MembershipState
  version : VectorClock
  sbr : Option SbrRuntime
  lastLeader : Option Address
  cursor : Nat

inductive DaemonCmd where
  | join (m : Member)
  | leave (address : Address)
  | down (address : Address)
  | applyGossip (pdu : GossipPdu)
  | tick (now : Nat)

structure Effects where
  events : List ClusterEvent
  sent : List (Address × GossipPdu)

def mergeState (ours other : MembershipState) : MembershipState :=
  other.members.foldl MembershipState.addOrUpdate ours

theorem mergeState_eq (ours other : MembershipState) :
    mergeState ours other =
      { ours with members := other.members.foldl (Keyed.put Member.address) ours.members } :=
  MembershipState.foldl_addOrUpdate other.members ours

namespace Daemon

def spawn (selfAddr : Address) (sbr : Option SbrRuntime) : Daemon :=
  { selfAddr, state := .new, version := .new, sbr, lastLeader := none, cursor := 0 }

def name (daemon : Daemon) : String := daemon.selfAddr.display

def tickVersion (daemon : Daemon) : Daemon := { daemon with version := daemon.version.tick daemon.name }

def envelope (daemon : Daemon) : GossipPdu := .envelope daemon.name daemon.version daemon.state

/-- Leave and down publish, and count, only a transition that took place. -/
def operate (daemon : Daemon) (outcome : MembershipState × Option ClusterEvent) : Daemon × Effects :=
  match outcome with
  | (state, some event) => ({ daemon with state }.tickVersion, ⟨[event], []⟩)
  | (state, none) => ({ daemon with state }, ⟨[], []⟩)

def leaderActions (daemon : Daemon) : Daemon × List ClusterEvent :=
  let (state, events) := daemon.state.applyLeaderActions
  let moved := { daemon with state }
  -- The convergence event alone makes the version count, with no member moved.
  (if events.isEmpty then moved else moved.tickVersion, events)

def leaderChange (daemon : Daemon) : Daemon × List ClusterEvent :=
  let leaderNow := electLeader daemon.state
  if leaderNow ≠ daemon.lastLeader then
    ({ daemon with lastLeader := leaderNow }, [.leaderChanged daemon.lastLeader leaderNow])
  else (daemon, [])

/-- Members are looked up by printed address here. -/
def downAll (state : MembershipState) (addresses : List String) : MembershipState :=
  addresses.foldl (fun state address => { state with
    members := Keyed.modify (fun m : Member => m.address.display) state.members address
      fun m => { m with status := .down } }) state

def runSbr (daemon : Daemon) (now : Nat) : Daemon :=
  match daemon.sbr with
  | none => daemon
  | some runtime =>
    -- The quorum notices go to the observer, which no daemon reads.
    let (action, _, runtime) := runtime.tick daemon.state now
    let ticked := { daemon with sbr := some runtime }
    match action with
    -- The daemon does nothing on a decision to down itself.
    | .none | .downSelf => ticked
    | .downUnreachable addresses | .downAll addresses =>
      { ticked with state := downAll ticked.state addresses }.tickVersion

def disseminate (daemon : Daemon) : Daemon × List (Address × GossipPdu) :=
  match pickGossipTarget (daemon.state.members.map Member.address) daemon.selfAddr daemon.cursor with
  | none => (daemon, [])
  | some target =>
    ({ daemon with cursor := (daemon.cursor + 1) % 2 ^ 64 }, [(target, .status daemon.name daemon.version)])

def doTick (daemon : Daemon) (now : Nat) : Daemon × Effects :=
  let acted := daemon.leaderActions
  let elected := acted.1.leaderChange
  let gossiped := (elected.1.runSbr now).disseminate
  (gossiped.1, ⟨acted.2 ++ elected.2, gossiped.2⟩)

/-- An answer goes to the address the sender printed, when that parses. -/
def answer (sender : String) (pdu : GossipPdu) : List (Address × GossipPdu) :=
  match Address.parse sender with
  | some target => [(target, pdu)]
  | none => []

def handlePdu (daemon : Daemon) : GossipPdu → Daemon × Effects
  | .status sender their =>
    match decideGossip daemon.version their with
    | .sendEnvelope | .mergeBoth => (daemon, ⟨[], answer sender daemon.envelope⟩)
    | .requestMerge => (daemon, ⟨[], answer sender (.merge daemon.name daemon.version)⟩)
    | .same => (daemon, ⟨[], []⟩)
  -- Whatever the versions say, every member of the envelope replaces ours.
  | .envelope _ their theirState =>
    ({ daemon with
        state := mergeState daemon.state theirState
        version := daemon.version.merge their }, ⟨[], []⟩)
  | .merge sender _ => (daemon, ⟨[], answer sender daemon.envelope⟩)

def handle (daemon : Daemon) : DaemonCmd → Daemon × Effects
  | .join m =>
    let (state, event) := daemon.state.join m
    ({ daemon with state }.tickVersion, ⟨[event], []⟩)
  | .leave address => daemon.operate (daemon.state.leave address)
  | .down address => daemon.operate (daemon.state.down address)
  | .applyGossip pdu => daemon.handlePdu pdu
  | .tick now => daemon.doTick now

/-- The parts of a daemon that gossip reads are left alone. -/
structure Keeps (daemon next : Daemon) : Prop where
  selfAddr : next.selfAddr = daemon.selfAddr
  state : next.state = daemon.state
  version : next.version = daemon.version

theorem Keeps.trans {first second third : Daemon} (left : Keeps first second) (right : Keeps second third) :
    Keeps first third where
  selfAddr := right.selfAddr.trans left.selfAddr
  state := right.state.trans left.state
  version := right.version.trans left.version

variable {daemon : Daemon}

theorem leaderActions_spec (reports : daemon.state.reachability = .new) :
    daemon.leaderActions.1 = { daemon with state := daemon.state.applyLeaderActions.1 }.tickVersion := by
  have events := MembershipState.applyLeaderActions_events (MembershipState.isConverged_of_reachable reports)
  simp [leaderActions, events]

theorem leaderChange_keeps (d : Daemon) :
    Keeps d d.leaderChange.1 ∧ d.leaderChange.1.sbr = d.sbr := by
  simp only [leaderChange]
  split <;> exact ⟨⟨rfl, rfl, rfl⟩, rfl⟩

theorem runSbr_keeps (reports : daemon.state.reachability = .new) (t : Nat) : Keeps daemon (daemon.runSbr t) := by
  unfold runSbr
  split
  · exact ⟨rfl, rfl, rfl⟩
  next rt _ =>
    simp only [rt.tick_of_reachable t reports]
    exact ⟨rfl, rfl, rfl⟩

theorem disseminate_keeps (d : Daemon) :
    Keeps d d.disseminate.1 ∧ d.disseminate.1.sbr = d.sbr ∧
      ∀ m ∈ d.disseminate.2, m.2 = .status d.name d.version := by
  unfold disseminate
  split
  · exact ⟨⟨rfl, rfl, rfl⟩, rfl, by simp⟩
  · exact ⟨⟨rfl, rfl, rfl⟩, rfl, by simp⟩

/-- The daemon as the resolver finds it: the leader has acted and was elected again. -/
def elected (daemon : Daemon) : Daemon := daemon.leaderActions.1.leaderChange.1

theorem elected_keeps (d : Daemon) :
    Keeps d.leaderActions.1 d.elected ∧
      d.elected.state = d.state.applyLeaderActions.1 ∧ d.elected.sbr = d.sbr := by
  have acted : d.leaderActions.1.state = d.state.applyLeaderActions.1 ∧
      d.leaderActions.1.sbr = d.sbr := by
    simp only [leaderActions]
    split <;> exact ⟨rfl, rfl⟩
  obtain ⟨kept, sbr⟩ := d.leaderActions.1.leaderChange_keeps
  exact ⟨kept, kept.state.trans acted.1, sbr.trans acted.2⟩

theorem doTick_keeps (d : Daemon) (t : Nat) :
    Keeps (d.elected.runSbr t) (d.doTick t).1 ∧
      (d.doTick t).1.sbr = (d.elected.runSbr t).sbr ∧
      ∀ m ∈ (d.doTick t).2.sent,
        m.2 = .status (d.elected.runSbr t).name (d.elected.runSbr t).version := by
  simp only [doTick]
  exact (d.leaderActions.1.leaderChange.1.runSbr t).disseminate_keeps

/-- A tick always counts: without reports every state is converged. -/
theorem doTick_spec (reports : daemon.state.reachability = .new) (t : Nat) :
    Keeps { daemon with state := daemon.state.applyLeaderActions.1 }.tickVersion (daemon.doTick t).1 ∧
      ∀ m ∈ (daemon.doTick t).2.sent, ∃ snd ver, m.2 = .status snd ver := by
  obtain ⟨elected, st, _⟩ := daemon.elected_keeps
  obtain ⟨kept, _, sent⟩ := daemon.doTick_keeps t
  -- The election and the resolver see the state after the leader's moves, still without reports.
  have quiet : daemon.elected.state.reachability = .new := by
    rw [st]
    exact (MembershipState.applyLeaderActions_reachability daemon.state).trans reports
  have res := runSbr_keeps quiet t
  rw [← leaderActions_spec reports]
  exact ⟨elected.trans (res.trans kept), fun m mem => ⟨_, _, sent m mem⟩⟩

theorem mem_answer {snd : String} {pdu : GossipPdu} {m : Address × GossipPdu}
    (mem : m ∈ answer snd pdu) : m.2 = pdu := by
  unfold answer at mem
  split at mem <;> simp_all

/-- A daemon keeps its state and version, counts a change of its own, or merges an
envelope; envelopes it sends carry what it holds. -/
structure Handled (daemon : Daemon) (cmd : DaemonCmd) (next : Daemon) (sent : List (Address × GossipPdu)) :
    Prop where
  selfAddr : next.selfAddr = daemon.selfAddr
  reports : next.state.reachability = .new
  envelopes : ∀ message ∈ sent, ∀ sender version state, message.2 = .envelope sender version state →
    version = next.version ∧ state = next.state
  outcome : (next.version = daemon.version ∧ next.state = daemon.state) ∨
    (next.version = daemon.version.tick daemon.name ∧ (daemon.state.Distinct → next.state.Distinct)) ∨
    ∃ sender version state, cmd = .applyGossip (.envelope sender version state) ∧
      next.version = daemon.version.merge version ∧ next.state = mergeState daemon.state state

variable (reports : daemon.state.reachability = .new)
include reports

theorem operate_handled (cmd : DaemonCmd) (addr : Address) (allowed : List MemberStatus) (status : MemberStatus)
    (ev : Member → ClusterEvent) :
    Handled daemon cmd (daemon.operate (daemon.state.transition addr allowed status ev)).1
      (daemon.operate (daemon.state.transition addr allowed status ev)).2.sent := by
  rcases daemon.state.transition_keeps addr allowed status ev with eq | ⟨m, moved⟩
  -- A refused command is neither published nor counted.
  · rw [eq]
    exact ⟨rfl, reports, by simp [operate], .inl ⟨rfl, rfl⟩⟩
  · rw [moved]
    refine ⟨rfl, reports, by simp [operate], .inr (.inl ⟨rfl, fun nodup => ?_⟩)⟩
    exact (congrArg List.Nodup (daemon.state.map_setStatus addr status)).mpr nodup

theorem handlePdu_handled (pdu : GossipPdu) :
    Handled daemon (.applyGossip pdu) (daemon.handlePdu pdu).1 (daemon.handlePdu pdu).2.sent := by
  have own : ∀ (snd : String) (m : Address × GossipPdu), m ∈ answer snd daemon.envelope →
      ∀ nm ver st, m.2 = .envelope nm ver st →
        ver = daemon.version ∧ st = daemon.state := by
    intro snd m mem nm ver st eq
    cases (mem_answer mem).symm.trans eq
    exact ⟨rfl, rfl⟩
  cases pdu with
  | status snd their =>
    unfold handlePdu
    dsimp only
    split
    · exact ⟨rfl, reports, own snd, .inl ⟨rfl, rfl⟩⟩
    · exact ⟨rfl, reports, own snd, .inl ⟨rfl, rfl⟩⟩
    · refine ⟨rfl, reports, fun m mem nm ver st eq => ?_, .inl ⟨rfl, rfl⟩⟩
      cases (mem_answer mem).symm.trans eq
    · exact ⟨rfl, reports, by simp, .inl ⟨rfl, rfl⟩⟩
  | envelope snd their theirState =>
    refine ⟨rfl, ?_, by simp [handlePdu], .inr (.inr ⟨snd, their, theirState, rfl, rfl, rfl⟩)⟩
    simpa only [handlePdu, mergeState_eq] using reports
  | merge snd their => exact ⟨rfl, reports, own snd, .inl ⟨rfl, rfl⟩⟩

theorem handle_handled (cmd : DaemonCmd) : Handled daemon cmd (daemon.handle cmd).1 (daemon.handle cmd).2.sent := by
  cases cmd with
  | join m =>
    exact ⟨rfl, reports, by simp [handle], .inr (.inl ⟨rfl, fun nodup => Keyed.distinct_put nodup m⟩)⟩
  | leave addr => exact operate_handled reports _ addr _ _ _
  | down addr => exact operate_handled reports _ addr _ _ _
  | applyGossip pdu => exact handlePdu_handled reports pdu
  | tick t =>
    obtain ⟨kept, sent⟩ := doTick_spec reports t
    have st : (daemon.doTick t).1.state = daemon.state.applyLeaderActions.1 := kept.state
    simp only [handle]
    refine ⟨kept.selfAddr, ?_, fun msg mem nm ver st eq => ?_, .inr (.inl ⟨kept.version, ?_⟩)⟩
    · rw [st, MembershipState.applyLeaderActions_reachability, reports]
    · obtain ⟨snd, their, status⟩ := sent msg mem
      cases status.symm.trans eq
    · rw [st]
      exact MembershipState.applyLeaderActions_distinct

end Daemon

end Atomr.Cluster
