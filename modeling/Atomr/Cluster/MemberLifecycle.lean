import Atomr.Cluster.GossipAgreement
import Atomr.Cluster.LeaderActions

/-! The statuses one daemon records for an address, between two join commands for it.

Operator commands and leader actions move a member forward only, and the last of
them drops it. An envelope overwrites: a stale one moves a status back, or brings a
dropped member back. The run theorem asks every envelope not to do so.
-/

namespace Atomr.Cluster

open Atomr.Core Library List Keyed

def MemberStatus.rank : MemberStatus → Nat
  | .joining => 0
  | .weaklyUp => 1
  | .up => 2
  | .leaving => 3
  | .exiting => 4
  | .down => 5
  | .removed => 6

/-- A record may move forward and may be dropped; what is not held does not appear. -/
def Onward : Option MemberStatus → Option MemberStatus → Prop
  | none, later => later = none
  | some _, none => True
  | some earlier, some later => earlier.rank ≤ later.rank

theorem Onward.refl : (status : Option MemberStatus) → Onward status status
  | none => rfl
  | some _ => Nat.le_refl _

theorem Onward.trans {first second third : Option MemberStatus} (left : Onward first second)
    (right : Onward second third) : Onward first third := by
  cases first with
  | none =>
    cases left
    exact right
  | some status =>
    cases second with
    | none =>
      cases right
      trivial
    | some mid =>
      cases third with
      | none => trivial
      | some last => exact Nat.le_trans left right

theorem nextStatus_rank {cur next : MemberStatus} {conv : Bool}
    (moved : nextStatus cur conv = some next) : cur.rank ≤ next.rank := by
  cases cur <;> cases conv <;> cases moved <;> decide

namespace MembershipState

def status (state : MembershipState) (address : Address) : Option MemberStatus :=
  (state.find address).map Member.status

theorem status_setStatus (st : MembershipState) (moved addr : Address) (next : MemberStatus) :
    (st.setStatus moved next).status addr =
      if moved = addr then (st.status addr).map fun _ => next else st.status addr := by
  have found : (st.setStatus moved next).find addr = _ :=
    find_modify (f := fun m : Member => { m with status := next }) (fun _ => rfl) st.members moved addr
  unfold status
  rw [found]
  split <;> simp [find, Function.comp_def]

variable {next : MemberStatus} {st : MembershipState}

theorem setStatus_onward {moved : Address} (above : ∀ s, st.status moved = some s → s.rank ≤ next.rank)
    (addr : Address) : Onward (st.status addr) ((st.setStatus moved next).status addr) := by
  rw [status_setStatus]
  split
  next eq =>
    subst eq
    cases h : st.status moved with
    | none => rfl
    | some s => exact above s h
  · exact .refl _

theorem transition_onward (st : MembershipState) {allowed : List MemberStatus}
    (forward : ∀ s ∈ allowed, s.rank ≤ next.rank) (moved : Address) (ev : Member → ClusterEvent)
    (addr : Address) :
    Onward (st.status addr) ((st.transition moved allowed next ev).1.status addr) := by
  unfold transition
  split
  · exact .refl _
  next m found =>
    split
    next acc =>
      refine setStatus_onward (fun s h => ?_) addr
      have eq : m.status = s := by simpa [status, found] using h
      exact eq ▸ forward _ acc
    · exact .refl _

theorem advance_rank (conv : Bool) (m : Member) : m.status.rank ≤ (m.advance conv).status.rank := by
  cases moved : nextStatus m.status conv with
  | none => rw [Member.advance, moved, Option.getD_none]
  | some next =>
    rw [Member.advance, moved]
    exact nextStatus_rank moved

theorem applyLeaderActions_onward (nodup : st.Distinct) (addr : Address) :
    Onward (st.status addr) (st.applyLeaderActions.1.status addr) := by
  have keeps : ∀ m : Member, (m.advance (isConverged st)).address = m.address := fun _ => rfl
  have found : st.applyLeaderActions.1.find addr =
      ((st.find addr).filter (Member.Stays (isConverged st) ·)).map (Member.advance (isConverged st)) := by
    unfold find
    rw [applyLeaderActions_members nodup, find_map keeps, find_filter nodup]
  unfold status
  rw [found]
  cases st.find addr with
  | none => rfl
  | some m =>
    by_cases stays : m.Stays (isConverged st)
    · simpa [Option.filter, stays, Onward] using advance_rank (isConverged st) m
    · simp [Option.filter, stays, Onward]

end MembershipState

structure Lifecycle where
  daemon : Daemon
  /-- Addresses the daemon dropped since their last join command; it keeps no such record. -/
  gone : List Address

namespace Lifecycle

def status (lifecycle : Lifecycle) (address : Address) : Option MemberStatus := lifecycle.daemon.state.status address

def start (selfAddr : Address) (sbr : Option SbrRuntime) : Lifecycle := ⟨.spawn selfAddr sbr, []⟩

def forget (gone : List Address) : DaemonCmd → List Address
  | .join m => gone.filter fun address => address ≠ m.address
  | _ => gone

def advance (lifecycle : Lifecycle) (cmd : DaemonCmd) : Lifecycle :=
  let next := (lifecycle.daemon.handle cmd).1
  ⟨next, forget (lifecycle.gone ++ Net.dropped lifecycle.daemon.state next.state) cmd⟩

def step (lifecycle : Lifecycle) (cmd : DaemonCmd) : Option Lifecycle := some (lifecycle.advance cmd)

end Lifecycle

def DaemonCmd.joins (address : Address) : DaemonCmd → Bool
  | .join m => m.address = address
  | _ => false

/-- An envelope may be applied when each of its members has a status no lower than the
recorded one, or is not recorded and was not dropped since it last joined. -/
def Orderly (lifecycle : Lifecycle) : DaemonCmd → Prop
  | .applyGossip pdu => ∀ carried ∈ pdu.carried, ∀ m ∈ carried.2.members,
      (∀ s ∈ lifecycle.status m.address, s.rank ≤ m.status.rank) ∧
        (lifecycle.status m.address = none → m.address ∉ lifecycle.gone)
  | _ => True

instance (lifecycle : Lifecycle) (cmd : DaemonCmd) : Decidable (Orderly lifecycle cmd) := by
  cases cmd <;> unfold Orderly <;> infer_instance

theorem Daemon.operate_state (d : Daemon) (out : MembershipState × Option ClusterEvent) :
    (d.operate out).1.state = out.1 := by
  unfold operate
  split <;> rfl

theorem Daemon.handlePdu_state (d : Daemon) (pdu : GossipPdu) :
    (d.handlePdu pdu).1.state = d.state ∨
      ∃ hcar ∈ pdu.carried, (d.handlePdu pdu).1.state = mergeState d.state hcar.2 := by
  cases pdu with
  | status snd their =>
    unfold handlePdu
    dsimp only
    split <;> exact .inl rfl
  | envelope snd ver st => exact .inr ⟨(ver, st), rfl, rfl⟩
  | merge snd ver => exact .inl rfl

theorem mergeState_status (ours other : MembershipState) (addr : Address) :
    (mergeState ours other).status addr = ours.status addr ∨
      ∃ m ∈ other.members, m.address = addr ∧ (mergeState ours other).status addr = some m.status := by
  have found := @Keyed.find_foldl_put_or _ _ _ Member.address ours.members other.members addr
  rw [mergeState_eq]
  rcases found with eq | ⟨m, mem, here, found⟩
  · exact .inl (congrArg (Option.map Member.status) eq)
  · exact .inr ⟨m, mem, here, congrArg (Option.map Member.status) found⟩

/-- Apart from join commands, a status moves on or is taken from an envelope. -/
theorem Daemon.handle_onward {d : Daemon} (reports : d.state.reachability = .new)
    (nodup : d.state.Distinct) {cmd : DaemonCmd} {addr : Address} (other : cmd.joins addr = false) :
    Onward (d.state.status addr) ((d.handle cmd).1.state.status addr) ∨
      ∃ pdu, cmd = .applyGossip pdu ∧ ∃ hcar ∈ pdu.carried, ∃ m ∈ hcar.2.members,
        m.address = addr ∧ (d.handle cmd).1.state.status addr = some m.status := by
  cases cmd with
  | join m =>
    have apart : m.address ≠ addr := by simpa [DaemonCmd.joins] using other
    have found : (d.state.join m).1.find addr = d.state.find addr :=
      (find_put d.state.members m addr).trans (if_neg apart)
    have kept : (d.handle (.join m)).1.state.status addr = d.state.status addr :=
      congrArg (Option.map Member.status) found
    rw [kept]
    exact .inl (.refl _)
  | leave moved =>
    rw [handle, operate_state]
    exact .inl (d.state.transition_onward (by decide) moved .memberLeft addr)
  | down moved =>
    rw [handle, operate_state]
    exact .inl (d.state.transition_onward (by decide) moved .memberDowned addr)
  | tick t =>
    rw [handle, (doTick_spec reports t).1.state]
    exact .inl (MembershipState.applyLeaderActions_onward nodup addr)
  | applyGossip pdu =>
    rw [handle]
    rcases d.handlePdu_state pdu with eq | ⟨hcar, hp, merged⟩
    · rw [eq]
      exact .inl (.refl _)
    · rw [merged]
      rcases mergeState_status d.state hcar.2 addr with kept | ⟨m, mem, here, taken⟩
      · rw [kept]
        exact .inl (.refl _)
      · exact .inr ⟨pdu, rfl, hcar, hp, m, mem, here, taken⟩

namespace Lifecycle

variable {lifecycle next : Lifecycle} {cmd : DaemonCmd} {address : Address}

/-- The daemon holds the address, or dropped it since it last joined. -/
def Recorded (lifecycle : Lifecycle) (address : Address) : Prop :=
  lifecycle.status address ≠ none ∨ address ∈ lifecycle.gone

structure Tracked (lifecycle : Lifecycle) : Prop where
  reports : lifecycle.daemon.state.reachability = .new
  distinct : lifecycle.daemon.state.Distinct
  gone : ∀ address ∈ lifecycle.gone, lifecycle.status address = none

theorem mem_forget {gone : List Address} (cmd : DaemonCmd) (addr : Address) :
    addr ∈ forget gone cmd ↔ addr ∈ gone ∧ cmd.joins addr = false := by
  cases cmd with
  | join m =>
    simp only [forget, DaemonCmd.joins, mem_filter, decide_eq_true_eq, decide_eq_false_iff_not]
    exact and_congr_right fun _ => ne_comm
  | leave _ | down _ | applyGossip _ | tick _ => simp [forget, DaemonCmd.joins]

theorem mem_dropped {pre post : MembershipState} {addr : Address} :
    addr ∈ Net.dropped pre post ↔ pre.status addr ≠ none ∧ post.status addr = none := by
  have h : addr ∈ pre.members.map Member.address ↔ pre.find addr ≠ none := by
    rw [MembershipState.find, Ne, find_eq_none, not_not]
  simp [Net.dropped, MembershipState.status, MembershipState.view, h]

theorem step_onward (htr : lifecycle.Tracked) (ord : Orderly lifecycle cmd)
    (taken : lifecycle.step cmd = some next) (other : cmd.joins address = false)
    (rec : lifecycle.Recorded address) :
    next.Recorded address ∧ Onward (lifecycle.status address) (next.status address) := by
  cases taken
  have onward : Onward (lifecycle.status address) ((lifecycle.daemon.handle cmd).1.state.status address) := by
    rcases Daemon.handle_onward htr.reports htr.distinct other with
      onward | ⟨pdu, rfl, hcar, hp, m, mem, rfl, overwritten⟩
    · exact onward
    · obtain ⟨above, fresh⟩ := ord hcar hp m mem
      rw [overwritten]
      cases h : lifecycle.status m.address with
      | none => exact absurd (rec.resolve_left (fun some => some h)) (fresh h)
      | some s => exact above s h
  refine ⟨?_, onward⟩
  by_cases kept : (lifecycle.daemon.handle cmd).1.state.status address = none
  · refine .inr ((mem_forget cmd address).mpr ⟨mem_append.mpr ?_, other⟩)
    by_cases h : lifecycle.status address = none
    · exact .inl (rec.resolve_left (fun some => some h))
    · exact .inr (mem_dropped.mpr ⟨h, kept⟩)
  · exact .inl kept

theorem step_tracked (htr : lifecycle.Tracked) (ord : Orderly lifecycle cmd)
    (taken : lifecycle.step cmd = some next) : next.Tracked := by
  have hh := Daemon.handle_handled htr.reports cmd
  have moved := @step_onward lifecycle next cmd
  cases taken
  refine ⟨hh.reports, ?_, fun addr mem => ?_⟩
  · rcases hh.outcome with ⟨-, eq⟩ | ⟨-, nodup⟩ | ⟨_, _, st, -, -, merged⟩
    · exact eq ▸ htr.distinct
    · exact nodup htr.distinct
    · exact merged ▸ mergeState_distinct htr.distinct st
  · obtain ⟨mem, other⟩ := (mem_forget cmd addr).mp mem
    rcases mem_append.mp mem with pre | t
    · have onward := (moved htr ord rfl other (.inr pre)).2
      rw [htr.gone addr pre] at onward
      exact onward
    · exact (mem_dropped.mp t).2

theorem start_tracked (selfAddr : Address) (sbr : Option SbrRuntime) : (start selfAddr sbr).Tracked where
  reports := rfl
  distinct := nodup_nil
  gone := by simp [start]

/-- Over a stretch without a join command for it, a recorded address moves on. -/
theorem run_onward {acts : List DaemonCmd} (htr : lifecycle.Tracked)
    (run : Run step Orderly lifecycle acts next) (others : ∀ cmd ∈ acts, cmd.joins address = false)
    (rec : lifecycle.Recorded address) :
    next.Recorded address ∧ Onward (lifecycle.status address) (next.status address) := by
  refine run.relation (fun first last => first.Recorded address →
      last.Recorded address ∧ Onward (first.status address) (last.status address))
    others (fun _ _ _ => step_tracked) (fun _ rec => ⟨rec, .refl _⟩) ?_ htr rec
  intro first cmd mid last htr ord other taken rest rec
  obtain ⟨rec, onward⟩ := step_onward htr ord taken other rec
  obtain ⟨rec, further⟩ := rest rec
  exact ⟨rec, onward.trans further⟩

/-- From a state where the daemon holds an address, over a stretch without a join
command for it: the status never moves back, and once dropped it stays dropped. -/
theorem recorded_status_never_moves_back {selfAddr : Address} {sbr : Option SbrRuntime}
    {before middle after : List DaemonCmd} {first second third : Lifecycle}
    (reached : Run step Orderly (start selfAddr sbr) before first) (stretch : Run step Orderly first middle second)
    (rest : Run step Orderly second after third) (address : Address)
    (others : ∀ cmd ∈ middle ++ after, cmd.joins address = false) {status : MemberStatus}
    (held : first.status address = some status) :
    (∀ later, second.status address = some later → status.rank ≤ later.rank) ∧
      (second.status address = none → third.status address = none) := by
  have tracked : first.Tracked := reached.invariant Tracked (fun _ _ _ => step_tracked) (start_tracked _ _)
  have still : second.Tracked := stretch.invariant Tracked (fun _ _ _ => step_tracked) tracked
  obtain ⟨recorded, onward⟩ := run_onward tracked stretch
    (fun cmd mem => others cmd (mem_append_left _ mem)) (.inl (by simp [held]))
  have further := (run_onward still rest (fun cmd mem => others cmd (mem_append_right _ mem)) recorded).2
  refine ⟨fun later found => ?_, fun dropped => ?_⟩
  · rw [held, found] at onward
    exact onward
  · rw [dropped] at further
    exact further

def bothUp : GossipPdu :=
  ([.join (.new (pair true) []), .join (.new (pair false) []), .tick 0].foldl
    (fun daemon cmd => (daemon.handle cmd).1) (Daemon.spawn (pair true) none)).envelope

def systemB (cmds : List DaemonCmd) : Lifecycle := cmds.foldl advance (start (pair false) none)

/-- B learns of both systems, leaves and is dropped after two ticks. -/
theorem recorded_status_never_moves_back_leaving :
    (systemB [.applyGossip bothUp]).status (pair false) = some .up ∧
      (systemB [.applyGossip bothUp, .applyGossip bothUp, .leave (pair false), .tick 1, .tick 2]).status
        (pair false) = none ∧
      (systemB [.applyGossip bothUp, .applyGossip bothUp, .leave (pair false), .tick 1, .tick 2, .tick 3]).status
        (pair false) = none := by
  have reached : Run step Orderly (start (pair false) none) [.applyGossip bothUp]
      (systemB [.applyGossip bothUp]) := Run.of_foldlM rfl
  have stretch : Run step Orderly (systemB [.applyGossip bothUp])
      [.applyGossip bothUp, .leave (pair false), .tick 1, .tick 2]
      (systemB [.applyGossip bothUp, .applyGossip bothUp, .leave (pair false), .tick 1, .tick 2]) :=
    Run.of_foldlM rfl
  have rest : Run step Orderly
      (systemB [.applyGossip bothUp, .applyGossip bothUp, .leave (pair false), .tick 1, .tick 2]) [.tick 3]
      (systemB [.applyGossip bothUp, .applyGossip bothUp, .leave (pair false), .tick 1, .tick 2, .tick 3]) :=
    Run.of_foldlM rfl
  have held : (systemB [.applyGossip bothUp]).status (pair false) = some .up := by decide +kernel
  have dropped : (systemB [.applyGossip bothUp, .applyGossip bothUp, .leave (pair false), .tick 1,
      .tick 2]).status (pair false) = none := by decide +kernel
  exact ⟨held, dropped,
    (recorded_status_never_moves_back reached stretch rest (pair false) (by decide) held).2 dropped⟩

/-- The same envelope, delivered again: after B has left it moves B back up, and after
B was dropped it brings B back. Nobody joins. -/
theorem stale_envelope_moves_status_back :
    (systemB [.applyGossip bothUp, .leave (pair false)]).status (pair false) = some .leaving ∧
      (systemB [.applyGossip bothUp, .leave (pair false), .applyGossip bothUp]).status (pair false) = some .up ∧
      (systemB [.applyGossip bothUp, .leave (pair false), .tick 1, .tick 2]).status (pair false) = none ∧
      (systemB [.applyGossip bothUp, .leave (pair false), .tick 1, .tick 2, .applyGossip bothUp]).status
        (pair false) = some .up := by
  refine ⟨?_, ?_, ?_, ?_⟩ <;> decide +kernel

end Lifecycle

end Atomr.Cluster
