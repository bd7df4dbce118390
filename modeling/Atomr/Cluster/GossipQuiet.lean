import Atomr.Cluster.GossipAgreement
import Atomr.Cluster.LeaderActions

/-! Ticks of a daemon that has nothing to do.

Whether the version counts is read off the events of the leader actions. A state that has converged
reports its convergence at every tick, so its version grows without any change; and a member held as
removed is dropped without an event.
-/

namespace Atomr.Cluster

open Atomr.Core Library List

variable {ι : Type}

namespace MembershipState

theorem present_members_eq_iff (st : MembershipState) :
    st.present.members = st.members ↔ ∀ m ∈ st.members, m.status ≠ .removed := by
  simp [present]

theorem isConverged_present (st : MembershipState) : isConverged st.present = isConverged st := by
  unfold isConverged present
  rw [all_filter]
  congr 1
  funext m
  by_cases removed : m.status = .removed <;> simp [removed]

theorem Quiet.present {st : MembershipState} (quiet : st.Quiet) : st.present.Quiet := by
  intro m mem
  rw [isConverged_present]
  exact quiet m (mem_of_mem_filter mem)

end MembershipState

namespace Daemon

/-- No member has a transition, and there is no resolver. -/
structure Quiet (daemon : Daemon) : Prop where
  state : daemon.state.Quiet
  sbr : daemon.sbr = none

variable {d : Daemon} (quiet : d.Quiet)
include quiet

theorem leaderActions_quiet :
    d.leaderActions.1 =
      { d with
        state := d.state.present
        version := if isConverged d.state then d.version.tick d.name else d.version } := by
  simp only [leaderActions, MembershipState.applyLeaderActions_quiet quiet.state]
  cases isConverged d.state <;> rfl

variable (t : Nat)

theorem doTick_quiet :
    Keeps d.leaderActions.1 (d.doTick t).1 ∧ (d.doTick t).1.sbr = none ∧
      ∀ m ∈ (d.doTick t).2.sent, ∃ snd, m.2 = .status snd (d.doTick t).1.version := by
  obtain ⟨elected, _, sbr⟩ := d.elected_keeps
  obtain ⟨kept, resolver, sent⟩ := d.doTick_keeps t
  have idle : d.elected.runSbr t = d.elected := by
    rw [runSbr, sbr, quiet.sbr]
  rw [idle] at kept resolver sent
  refine ⟨elected.trans kept, by rw [resolver, sbr, quiet.sbr], fun m mem => ?_⟩
  rw [kept.version]
  exact ⟨_, sent m mem⟩

theorem doTick_state : (d.doTick t).1.state = d.state.present := by
  rw [(doTick_quiet quiet t).1.state, leaderActions_quiet quiet]

theorem doTick_version :
    (d.doTick t).1.version =
      if isConverged d.state then d.version.tick d.name else d.version := by
  rw [(doTick_quiet quiet t).1.version, leaderActions_quiet quiet]

theorem Quiet.doTick : (d.doTick t).1.Quiet where
  state := by
    rw [doTick_state quiet]
    exact quiet.state.present
  sbr := (doTick_quiet quiet t).2.1

theorem doTick_unchanged_iff :
    ((d.doTick t).1.state.members = d.state.members ∧ (d.doTick t).1.version = d.version) ↔
      ¬ isConverged d.state ∧ ∀ m ∈ d.state.members, m.status ≠ .removed := by
  rw [doTick_state quiet, doTick_version quiet, MembershipState.present_members_eq_iff, and_comm]
  refine and_congr_left' ?_
  split
  next conv =>
    refine iff_of_false (fun eq => ?_) (not_not_intro conv)
    have counted := congrArg (·.get d.name) eq
    simp [VectorClock.get_tick] at counted
  next converging => exact iff_of_true rfl converging

end Daemon

namespace Net

variable [DecidableEq ι]

/-- Ticks and deliveries: nobody joins, leaves or is downed. -/
def Idle (_ : Net ι) : NetAction ι → Prop
  | .command _ (.tick _) => True
  | .command _ _ => False
  | .deliver _ _ => True

/-- The daemons are quiet and their versions compare the same, also with those on their way. -/
structure Agreeing (net : Net ι) : Prop where
  quiet : ∀ node, (net.nodes node).Quiet
  same : ∀ node other, (net.nodes node).version.compare (net.nodes other).version = .same
  sent : ∀ message ∈ net.sent, ∃ sender version, message.2 = .status sender version ∧
    ∀ node, (net.nodes node).version.compare version = .same

/-- The members may still lose removed ones, but no version counts. -/
structure Still (net : Net ι) : Prop extends Agreeing net where
  converging : ∀ node, ¬ isConverged (net.nodes node).state

variable {net : Net ι}

theorem Still.handleAt_tick (still : net.Still) (n : ι) (t : Nat) : (net.handleAt n (.tick t)).Still := by
  have quiet := still.quiet n
  have ver : ((net.nodes n).doTick t).1.version = (net.nodes n).version := by
    rw [Daemon.doTick_version quiet, if_neg (still.converging n)]
  have ns : ∀ i, ((net.handleAt n (.tick t)).nodes i) = 
      if i = n then ((net.nodes n).doTick t).1 else net.nodes i := by
    intro i
    exact Function.update_apply ..
  have vs : ∀ i, ((net.handleAt n (.tick t)).nodes i).version = (net.nodes i).version := by
    intro i
    rw [ns]
    split
    next here => rw [here, ver]
    · rfl
  refine ⟨⟨fun i => ?_, fun i j => ?_, fun m mem => ?_⟩, fun i => ?_⟩
  · rw [ns]
    split
    · exact quiet.doTick t
    · exact still.quiet i
  · rw [vs, vs]
    exact still.same i j
  · simp only [vs]
    rcases mem_append.mp mem with old | new
    · exact still.sent m old
    · obtain ⟨snd, status⟩ := (Daemon.doTick_quiet quiet t).2.2 m new
      rw [ver] at status
      exact ⟨snd, _, status, fun i => still.same i n⟩
  · rw [ns]
    split
    · rw [Daemon.doTick_state quiet, MembershipState.isConverged_present]
      exact still.converging n
    · exact still.converging i

theorem Still.handleAt_status (still : net.Still) {n : ι} {ver : VectorClock}
    (eq : (net.nodes n).version.compare ver = .same) (snd : String) :
    (net.handleAt n (.applyGossip (.status snd ver))).Still := by
  have hh : (net.nodes n).handle (.applyGossip (.status snd ver)) = (net.nodes n, ⟨[], []⟩) := by
    simp only [Daemon.handle, Daemon.handlePdu, decideGossip, eq]
  have ns : (net.handleAt n (.applyGossip (.status snd ver))).nodes = net.nodes := by
    simp only [handleAt, hh, Function.update_eq_self]
  have sent : (net.handleAt n (.applyGossip (.status snd ver))).sent = net.sent := by
    simp only [handleAt, hh, append_nil]
  refine ⟨⟨?_, ?_, ?_⟩, ?_⟩
  · rw [ns]
    exact still.quiet
  · rw [ns]
    exact still.same
  · rw [ns, sent]
    exact still.sent
  · rw [ns]
    exact still.converging

theorem Still.step {next : Net ι} {act : NetAction ι} (still : net.Still) (idle : Idle net act)
    (taken : net.step act = some next) : next.Still := by
  cases act with
  | command n cmd =>
    cases cmd with
    | tick t =>
      cases taken
      exact still.handleAt_tick n t
    | join | leave | down | applyGossip => exact idle.elim
  | deliver i n =>
    rw [Net.step] at taken
    split at taken
    · cases taken
    next tgt pdu found =>
      obtain ⟨snd, ver, status, eq⟩ := still.sent _ (mem_of_getElem? found)
      cases status
      split at taken
      · cases taken
        exact still.handleAt_status (eq n) snd
      · cases taken

/-- A quiet daemon is left unchanged by a tick exactly if its state has not converged and holds no removed
member. Daemons that agree go on agreeing exactly if none of their states has converged. -/
theorem quiet_tick_iff [Nontrivial ι] {net : Net ι} {node : ι} (quiet : (net.nodes node).Quiet) (now : Nat) :
    (((net.nodes node).doTick now).1.state.members = (net.nodes node).state.members ∧
        ((net.nodes node).doTick now).1.version = (net.nodes node).version ↔
      ¬ isConverged (net.nodes node).state ∧ ∀ m ∈ (net.nodes node).state.members, m.status ≠ .removed) ∧
    (net.Agreeing →
      ((∀ actions last, Run step Idle net actions last →
          ∀ node other, (last.nodes node).version.compare (last.nodes other).version = .same) ↔
        ∀ node, ¬ isConverged (net.nodes node).state)) := by
  refine ⟨Daemon.doTick_unchanged_iff quiet now, fun agreeing => ⟨fun stays node converged => ?_, ?_⟩⟩
  · -- One tick of the converged daemon takes its version ahead of another one.
    obtain ⟨other, ne⟩ := exists_ne node
    have ticked := stays [.command node (.tick 0)] _ (.cons trivial rfl (.nil _)) node other
    have ahead : (net.handleAt node (.tick 0)).nodes node = ((net.nodes node).doTick 0).1 := Function.update_self ..
    have behind : (net.handleAt node (.tick 0)).nodes other = net.nodes other := Function.update_of_ne ne ..
    rw [ahead, behind, Daemon.doTick_version (agreeing.quiet node), if_pos converged] at ticked
    have counted := ((VectorClock.compare_eq _ _).1.mp ticked).1 (net.nodes node).name
    have equal := ((VectorClock.compare_eq _ _).1.mp (agreeing.same other node)).1 (net.nodes node).name
    rw [VectorClock.get_tick, if_pos rfl] at counted
    omega
  · intro converging actions last run
    have still : last.Still := run.invariant Still (fun net act next still idle taken => still.step idle taken)
      ⟨agreeing, converging⟩
    exact still.same

end Net

def pairDaemon (reports : Reachability) (self : String) : Daemon :=
  { Daemon.spawn (.localTo self) none with
    state := ⟨[⟨.localTo "A", 1, .up, []⟩, ⟨.localTo "B", 2, .up, []⟩], reports⟩ }

def pairNet (reports : Reachability) : Net Bool :=
  ⟨fun first => pairDaemon reports (if first then "A" else "B"), [], []⟩

namespace Net

theorem quiet_tick_unreachable :
    let net := pairNet (Reachability.new.unreachable (.localTo "A") (.localTo "B"))
    net.Agreeing ∧ ((net.nodes true).doTick 0).1.version = (net.nodes true).version ∧
      ∃ last, Run step Idle net [.command true (.tick 0), .command false (.tick 1)] last ∧
        (last.nodes true).version.compare (last.nodes false).version = .same := by
  intro net
  have quiet : ∀ node, (net.nodes node).Quiet := fun node => ⟨by cases node <;> decide, rfl⟩
  have converging : ∀ node, ¬ isConverged (net.nodes node).state := by decide
  have agreeing : net.Agreeing := ⟨quiet, by decide, fun _ absent => (by cases absent)⟩
  obtain ⟨last, run⟩ : ∃ last, Run step Idle net [.command true (.tick 0), .command false (.tick 1)] last :=
    ⟨_, .cons trivial rfl (.cons trivial rfl (.nil _))⟩
  obtain ⟨unchanged, agree⟩ := quiet_tick_iff (quiet true) 0
  refine ⟨agreeing, (unchanged.mpr ⟨converging true, by decide⟩).2, last, run, ?_⟩
  exact (agree agreeing).mpr converging _ _ run true false

/-- Nothing is left to do, and the versions part at the first tick. -/
theorem converged_tick_counts :
    let net := pairNet .new
    (net.nodes true).Quiet ∧ (net.nodes true).version.compare (net.nodes false).version = .same ∧
      ((net.nodes true).doTick 0).1.state.members = (net.nodes true).state.members ∧
      ((net.nodes true).doTick 0).1.version.get (net.nodes true).name = 1 ∧
      ((net.nodes true).doTick 0).1.version.compare (net.nodes false).version = .after := by
  refine ⟨⟨?_, rfl⟩, ?_, ?_, ?_, ?_⟩ <;> decide +kernel

end Net

end Atomr.Cluster
