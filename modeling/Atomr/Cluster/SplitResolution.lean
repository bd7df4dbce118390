import Atomr.Cluster.MemberLifecycle

/-! Daemons on the two sides of a partition, and what their resolvers leave.

A majority downs the members it cannot reach, and a daemon that is told to down
itself does nothing: with sides of different size both keep members that are up.
With sides of one size every daemon downs all members once the margin has passed,
and only an envelope written before that can bring one back.
-/

namespace Atomr.Cluster

open Atomr.Core Library List Keyed

/-- Two non-empty sides whose members print different addresses. -/
structure Sides where
  left : List Address
  right : List Address
  leftSome : left ≠ []
  rightSome : right ≠ []
  distinct : ((left ++ right).map Address.display).Nodup

namespace Sides

def all (sides : Sides) : List Address := sides.left ++ sides.right

def near (sides : Sides) (node : Address) : List Address :=
  if node ∈ sides.left then sides.left else sides.right

def across (sides : Sides) (node : Address) : List Address :=
  if node ∈ sides.left then sides.right else sides.left

variable (sd : Sides)

theorem nodup : sd.all.Nodup := sd.distinct.of_map Address.display

theorem all_perm (n : Address) : sd.all.Perm (sd.near n ++ sd.across n) := by
  unfold near across
  split
  · exact .refl _
  · exact perm_append_comm

theorem across_subset (n : Address) : sd.across n ⊆ sd.all :=
  fun _ mem => (sd.all_perm n).mem_iff.mpr (mem_append_right _ mem)

theorem near_subset (n : Address) : sd.near n ⊆ sd.all :=
  fun _ mem => (sd.all_perm n).mem_iff.mpr (mem_append_left _ mem)

theorem not_mem_across {n addr : Address} (mem : addr ∈ sd.near n) :
    addr ∉ sd.across n := by
  intro other
  have nodup := (sd.all_perm n).nodup_iff.mp sd.nodup
  exact (nodup_append.mp nodup).2.2 addr mem addr other rfl

theorem across_ne_nil (n : Address) : sd.across n ≠ [] := by
  unfold across
  split
  · exact sd.rightSome
  · exact sd.leftSome

theorem near_length (even : sd.left.length = sd.right.length) (n : Address) :
    (sd.near n).length = (sd.across n).length := by
  unfold near across
  split
  · exact even
  · exact even.symm

end Sides

structure SplitNet where
  nodes : Address → Daemon
  sent : List (Address × Address × GossipPdu)
  /-- The instants at which each daemon ticked; no daemon reads this record. -/
  ticks : Address → List Nat

inductive SplitAction where
  | tick (node : Address) (now : Nat)
  | deliver (index : Nat) (node : Address)

namespace SplitNet

variable (net : SplitNet)

def handleAt (node : Address) (cmd : DaemonCmd) : SplitNet :=
  let handled := (net.nodes node).handle cmd
  { net with
    nodes := Function.update net.nodes node handled.1
    sent := net.sent ++ handled.2.sent.map fun message => (node, message) }

def step : SplitAction → Option SplitNet
  | .tick node now =>
    some { net.handleAt node (.tick now) with
      ticks := Function.update net.ticks node (net.ticks node ++ [now]) }
  | .deliver index node =>
    match net.sent[index]? with
    | none => none
    | some (_, target, pdu) =>
      if target.display = (net.nodes node).name then some (net.handleAt node (.applyGossip pdu)) else none

/-- Only members act, no clock runs backwards and no message crosses the split. -/
def Apart (sides : Sides) (net : SplitNet) : SplitAction → Prop
  | .tick node now => node ∈ sides.all ∧ ∀ earlier ∈ net.ticks node, earlier ≤ now
  | .deliver index node => node ∈ sides.all ∧
      ∀ message ∈ net.sent[index]?, message.1 ∈ sides.left ↔ node ∈ sides.left

def HoldsUp (state : MembershipState) : Prop := ∃ m ∈ state.members, m.status = .up
deriving Decidable

/-- No envelope with a member that is up reaches a daemon that has none left. -/
def NoRevival : SplitAction → Prop
  | .tick _ _ => True
  | .deliver index node => ∀ message ∈ net.sent[index]?, ∀ carried ∈ message.2.2.carried,
      HoldsUp carried.2 → HoldsUp (net.nodes node).state

instance (sides : Sides) (net : SplitNet) (action : SplitAction) : Decidable (net.Apart sides action) := by
  cases action <;> unfold Apart <;> infer_instance

instance (net : SplitNet) (action : SplitAction) : Decidable (net.NoRevival action) := by
  cases action <;> unfold NoRevival <;> infer_instance

end SplitNet

structure Uniform (sides : Sides) (status : MemberStatus) (state : MembershipState) : Prop where
  members : ∀ m ∈ state.members, m.status = status
  addresses : (state.members.map Member.address).Perm sides.all

/-- What is left once all members were downed: all of them down, or none. -/
def Gone (sides : Sides) (state : MembershipState) : Prop := state.members = [] ∨ Uniform sides .down state

variable {sides : Sides} {status : MemberStatus} {s : MembershipState}

theorem Uniform.distinct (unif : Uniform sides status s) : s.Distinct := unif.addresses.nodup_iff.mpr sides.nodup

theorem Uniform.holdsUp (unif : Uniform sides .up s) : SplitNet.HoldsUp s := by
  obtain ⟨first, rest, left⟩ := exists_cons_of_ne_nil sides.leftSome
  have mem : first ∈ s.members.map Member.address := unif.addresses.mem_iff.mpr (by simp [Sides.all, left])
  obtain ⟨m, mem, -⟩ := mem_map.mp mem
  exact ⟨m, mem, unif.members m mem⟩

theorem Gone.not_holdsUp (gone : Gone sides s) : ¬ SplitNet.HoldsUp s := by
  rintro ⟨m, mem, up⟩
  rcases gone with none | down
  · simp [none] at mem
  · cases (down.members m mem).symm.trans up

variable {other : MembershipState}

theorem Uniform.mergeState (unif : Uniform sides status other) (nodup : s.Distinct)
    (known : s.members.map Member.address ⊆ sides.all) : Uniform sides status (mergeState s other) := by
  have cov : s.members.map Member.address ⊆ other.members.map Member.address :=
    fun addr h => unif.addresses.mem_iff.mpr (known h)
  have post := mergeState_distinct nodup other
  rw [mergeState_eq] at post ⊢
  constructor
  · intro m mem
    exact unif.members m (mem_of_mem_foldl_put nodup unif.distinct cov mem)
  · refine List.Perm.trans ?_ unif.addresses
    refine (perm_ext_iff_of_nodup post unif.distinct).mpr fun addr => ?_
    exact mem_map_foldl_put.trans (or_iff_left_of_imp fun h => cov h)

theorem mergeState_nil (none : other.members = []) : mergeState s other = s := by
  rw [mergeState, none, foldl_nil]

namespace MembershipState

variable {st : MembershipState}

theorem applyLeaderActions_up (up : ∀ m ∈ st.members, m.status = .up) : st.applyLeaderActions.1 = st := by
  have quiet : st.Quiet := fun m mem => by rw [up m mem]; rfl
  have kept : (st.members.filter fun m => m.status ≠ .removed) = st.members := by
    rw [filter_eq_self]
    intro m mem
    rw [up m mem]
    rfl
  rw [applyLeaderActions_quiet quiet, present, kept]

theorem modify_every {K : Type} [DecidableEq K] (key : Member → K) (f : Member → Member)
    (keeps : ∀ m, key (f m) = key m) (nodup : Keyed.Distinct key st.members) :
    (st.members.map key).foldl (fun st k => { st with
      members := Keyed.modify key st.members k f }) st = { st with members := st.members.map f } := by
  have lifted (keys : List K) (st : MembershipState) :
      keys.foldl (fun st k => { st with members := Keyed.modify key st.members k f }) st =
        { st with members := keys.foldl (fun h k => Keyed.modify key h k f) st.members } := by
    induction keys generalizing st with
    | nil => rfl
    | cons k rest ih => exact ih { st with members := Keyed.modify key st.members k f }
  rw [lifted, foldl_modify keeps nodup]

theorem applyLeaderActions_down (nodup : st.Distinct) (down : ∀ m ∈ st.members, m.status = .down) :
    st.applyLeaderActions.1.members = [] := by
  rw [applyLeaderActions_members nodup, map_eq_nil_iff, filter_eq_nil_iff]
  intro m mem
  simp [Member.Stays, nextStatus, down m mem]

theorem downAll_every (nodup : (st.members.map fun m => m.address.display).Nodup) :
    Daemon.downAll st (st.members.map fun m => m.address.display) =
      { st with members := st.members.map fun m => { m with status := .down } } :=
  modify_every (fun m => m.address.display) (fun m => { m with status := .down }) (fun _ => rfl) nodup

end MembershipState

theorem Uniform.downAll (unif : Uniform sides status s) :
    Uniform sides .down (Daemon.downAll s (s.members.map fun m => m.address.display)) := by
  have nodup : (s.members.map fun m => m.address.display).Nodup := by
    have printed := (unif.addresses.map Address.display).nodup_iff.mpr sides.distinct
    rwa [map_map] at printed
  rw [MembershipState.downAll_every nodup]
  constructor
  · simp
  · simpa [Function.comp_def] using unif.addresses

/-- The reports of a node mark exactly the other side unreachable. -/
def Marks (sides : Sides) (node : Address) (reachability : Reachability) : Prop :=
  ∀ address ∈ sides.all, reachability.isReachable address ↔ address ∉ sides.across node

variable {node : Address} {reachability : Reachability}

/-- On sides of one size a node reaches as many members as it does not reach. -/
theorem Marks.countP_eq (marks : Marks sides node reachability) (even : sides.left.length = sides.right.length) :
    sides.all.countP (reachability.isReachable ·) = sides.all.countP (!reachability.isReachable ·) := by
  have reached : ∀ addr ∈ sides.near node, reachability.isReachable addr := fun addr mem =>
    (marks addr (sides.near_subset node mem)).mpr (sides.not_mem_across mem)
  have cut : ∀ addr ∈ sides.across node, ¬ reachability.isReachable addr := fun addr mem h =>
    (marks addr (sides.across_subset node mem)).mp h mem
  have sizes := sides.near_length even node
  rw [(sides.all_perm node).countP_eq, (sides.all_perm node).countP_eq, countP_append, countP_append,
    countP_eq_length.mpr reached, countP_eq_zero.mpr cut, countP_eq_zero.mpr (by simpa using reached),
    countP_eq_length.mpr (by simpa using cut), sizes, Nat.add_comm]

theorem Uniform.countP_isUp (unif : Uniform sides .up s) (kept : Address → Bool) :
    (s.members.filter fun m => kept m.address).countP isUp = sides.all.countP kept := by
  calc (s.members.filter fun m => kept m.address).countP isUp
      = (s.members.filter fun m => kept m.address).length := by
        rw [countP_eq_length]
        intro m mem
        simp [isUp, unif.members m (mem_of_mem_filter mem)]
    _ = (s.members.map Member.address).countP kept := by
        rw [countP_map, countP_eq_length_filter]
        rfl
    _ = sides.all.countP kept := unif.addresses.countP_eq kept

theorem keepMajority_ties {r u : List Member} (tie : r.countP isUp = u.countP isUp) :
    KeepMajorityStrategy.decide r u = .downAll := by
  simp [KeepMajorityStrategy.decide, tie]

namespace SbrRuntime

theorem tick_keeps (rt : SbrRuntime) (st : MembershipState) (t : Nat) :
    (rt.tick st t).2.2.strategy = rt.strategy ∧
      (rt.tick st t).2.2.stableAfter = rt.stableAfter := by
  simp only [tick, noteQuorumRegained, noteQuorumLost]
  repeat' split
  all_goals exact ⟨rfl, rfl⟩

theorem tick_nil (rt : SbrRuntime) {st : MembershipState} (t : Nat) (none : st.members = []) :
    (rt.tick st t).1 = .none := by
  simp [tick, none]

variable {runtime : SbrRuntime}

/-- On sides of one size a node downs all members, or waits for the margin to pass. -/
theorem tick_uniform (majority : runtime.strategy = KeepMajorityStrategy.decide)
    (even : sides.left.length = sides.right.length) (unif : Uniform sides .up s)
    (marks : Marks sides node s.reachability) (t : Nat) :
    let since := runtime.unstableSince.getD t
    runtime.tick s t =
      (if t - since < runtime.stableAfter then .none
        else .downAll (s.members.map fun m => m.address.display),
        [], { runtime with unstableSince := some since }) := by
  have alive : (s.members.filter fun m => m.status ≠ .down ∧ m.status ≠ .removed) = s.members := by
    rw [filter_eq_self]
    intro m mem
    simp [unif.members m mem]
  have cut : ¬ (s.members.filter fun m => !s.reachability.isReachable m.address).isEmpty := by
    obtain ⟨addr, rest, across⟩ := exists_cons_of_ne_nil (sides.across_ne_nil node)
    have mem : addr ∈ sides.across node := by simp [across]
    have h := sides.across_subset node mem
    obtain ⟨m, inState, rfl⟩ := mem_map.mp (unif.addresses.mem_iff.mpr h)
    have unreachable : ¬ s.reachability.isReachable m.address := fun reached =>
      (marks _ h).mp reached mem
    rw [List.isEmpty_iff, List.filter_eq_nil_iff]
    exact fun none => none m inState (by simpa using unreachable)
  have tie := keepMajority_ties ((unif.countP_isUp _).trans
    ((marks.countP_eq even).trans (unif.countP_isUp _).symm))
  simp only [tick, alive, if_neg cut, majority, tie]
  split <;> rfl

/-- While nothing was downed the ticks lie within the margin of the first one. -/
def Margin (runtime : SbrRuntime) (ticks : List Nat) : Prop :=
  match runtime.unstableSince with
  | none => ticks = []
  | some since => since ∈ ticks ∧ ∀ tick ∈ ticks, since ≤ tick ∧ tick - since < runtime.stableAfter

variable {ticks : List Nat}

theorem Margin.not_spanning (margin : runtime.Margin ticks) {first last : Nat} (early : first ∈ ticks)
    (late : last ∈ ticks) : ¬ first + runtime.stableAfter < last := by
  unfold Margin at margin
  split at margin
  · simp [margin] at early
  · have low := (margin.2 first early).1
    have high := margin.2 last late
    omega

theorem Margin.snoc (margin : runtime.Margin ticks) {t : Nat} (latest : ∀ earlier ∈ ticks, earlier ≤ t)
    (waits : t - runtime.unstableSince.getD t < runtime.stableAfter) :
    { runtime with unstableSince := some (runtime.unstableSince.getD t) }.Margin (ticks ++ [t]) := by
  have started : (ticks = [] ∧ runtime.unstableSince.getD t = t) ∨
      (runtime.unstableSince.getD t ∈ ticks ∧ ∀ tick ∈ ticks, runtime.unstableSince.getD t ≤ tick ∧
        tick - runtime.unstableSince.getD t < runtime.stableAfter) := by
    unfold Margin at margin
    split at margin
    next unset => exact .inl ⟨margin, by rw [unset]; rfl⟩
    next since set =>
      rw [set]
      exact .inr margin
  simp only [Margin, mem_append, mem_singleton]
  rcases started with ⟨rfl, here⟩ | ⟨known, within⟩
  · rw [here, Nat.sub_self] at waits
    simp [here, waits]
  · refine ⟨.inl known, fun tick ticked => ?_⟩
    rcases ticked with earlier | rfl
    · exact within tick earlier
    · exact ⟨latest _ known, waits⟩

end SbrRuntime

/-- A daemon that still holds everyone up has not ticked beyond its margin. -/
structure Resolving (sides : Sides) (node : Address) (stableAfter : Nat) (ticks : List Nat) (daemon : Daemon) :
    Prop where
  marks : Marks sides node daemon.state.reachability
  runtime : ∃ runtime, daemon.sbr = some runtime ∧ runtime.strategy = KeepMajorityStrategy.decide ∧
    runtime.stableAfter = stableAfter ∧
      (Uniform sides .up daemon.state ∧ runtime.Margin ticks ∨ Gone sides daemon.state)

namespace Daemon

theorem runSbr_of_tick {d : Daemon} {rt : SbrRuntime} (sbr : d.sbr = some rt) (t : Nat) :
    (d.runSbr t).sbr = some (rt.tick d.state t).2.2 ∧
      (d.runSbr t).state = match (rt.tick d.state t).1 with
        | .none | .downSelf => d.state
        | .downUnreachable addrs | .downAll addrs => downAll d.state addrs := by
  simp only [runSbr, sbr]
  cases (rt.tick d.state t).1 <;> exact ⟨rfl, rfl⟩

theorem downAll_reachability (st : MembershipState) (addrs : List String) :
    (downAll st addrs).reachability = st.reachability := by
  induction addrs generalizing st with
  | nil => rfl
  | cons addr rest ih => exact ih _

theorem doTick_resolves (d : Daemon) (t : Nat) :
    ∃ acted : Daemon, acted.state = d.state.applyLeaderActions.1 ∧ acted.sbr = d.sbr ∧
      (d.doTick t).1.state = (acted.runSbr t).state ∧ (d.doTick t).1.sbr = (acted.runSbr t).sbr := by
  obtain ⟨_, st, sbr⟩ := d.elected_keeps
  obtain ⟨kept, resolver, _⟩ := d.doTick_keeps t
  exact ⟨d.elected, st, sbr, kept.state, resolver⟩

theorem handlePdu_sbr (d : Daemon) (pdu : GossipPdu) : (d.handlePdu pdu).1.sbr = d.sbr := by
  cases pdu with
  | status snd their =>
    unfold handlePdu
    dsimp only
    split <;> rfl
  | envelope snd ver st => rfl
  | merge snd ver => rfl

variable {m : Address × GossipPdu}

theorem handlePdu_carried (d : Daemon) (pdu : GossipPdu) (sent : m ∈ (d.handlePdu pdu).2.sent) :
    ∀ hcar ∈ m.2.carried, hcar.2 = d.state := by
  have own (snd : String) (hans : m ∈ answer snd d.envelope) :
      ∀ hcar ∈ m.2.carried, hcar.2 = d.state := by
    rw [mem_answer hans]
    rintro hcar ⟨⟩
    rfl
  cases pdu with
  | status snd their =>
    simp only [handlePdu] at sent
    split at sent
    · exact own snd sent
    · exact own snd sent
    · rw [mem_answer sent]
      rintro hcar ⟨⟩
    · cases sent
  | envelope snd ver st => cases sent
  | merge snd ver => exact own snd sent

theorem doTick_carried (d : Daemon) (t : Nat) (sent : m ∈ (d.doTick t).2.sent) :
    m.2.carried = none := by
  rw [(d.doTick_keeps t).2.2 m sent]
  rfl

end Daemon

variable {stableAfter : Nat} {ticks : List Nat} {d : Daemon}

theorem Gone.applyLeaderActions (gone : Gone sides s) : s.applyLeaderActions.1.members = [] := by
  rcases gone with none | down
  · simp [MembershipState.applyLeaderActions, none]
  · exact MembershipState.applyLeaderActions_down down.distinct down.members

/-- One tick keeps everyone up within the margin only. -/
theorem Resolving.doTick (even : sides.left.length = sides.right.length)
    (resolving : Resolving sides node stableAfter ticks d) {t : Nat}
    (latest : ∀ earlier ∈ ticks, earlier ≤ t) :
    Resolving sides node stableAfter (ticks ++ [t]) (d.doTick t).1 := by
  obtain ⟨rt, sbr, majority, span, view⟩ := resolving.runtime
  obtain ⟨acted, moved, eq, st, resolver⟩ := d.doTick_resolves t
  obtain ⟨ran, left⟩ := Daemon.runSbr_of_tick (eq.trans sbr) t
  obtain ⟨strat, margin⟩ := rt.tick_keeps acted.state t
  rw [← st] at left
  rw [← resolver] at ran
  have reports : (d.doTick t).1.state.reachability = d.state.reachability := by
    rw [left, ← d.state.applyLeaderActions_reachability, ← moved]
    cases (rt.tick acted.state t).1 <;> simp only [Daemon.downAll_reachability]
  refine ⟨by rw [reports]; exact resolving.marks, _, ran, strat.trans majority, margin.trans span, ?_⟩
  rcases view with ⟨unif, within⟩ | gone
  · have still : acted.state = d.state := moved.trans (MembershipState.applyLeaderActions_up unif.members)
    rw [still, SbrRuntime.tick_uniform majority even unif resolving.marks] at left ⊢
    by_cases waits : t - rt.unstableSince.getD t < rt.stableAfter
    · rw [if_pos waits] at left
      exact .inl ⟨left ▸ unif, within.snoc latest waits⟩
    -- The margin has passed, and a tie downs everyone.
    · rw [if_neg waits] at left
      exact .inr (.inr (left ▸ unif.downAll))
  · have none := moved ▸ gone.applyLeaderActions
    rw [rt.tick_nil t none] at left
    exact .inr (.inl (left ▸ none))

theorem Resolving.handlePdu (resolving : Resolving sides node stableAfter ticks d) {pdu : GossipPdu}
    (views : ∀ hcar ∈ pdu.carried, Uniform sides .up hcar.2 ∨ Gone sides hcar.2)
    (fresh : ∀ hcar ∈ pdu.carried, SplitNet.HoldsUp hcar.2 → SplitNet.HoldsUp d.state) :
    Resolving sides node stableAfter ticks (d.handlePdu pdu).1 := by
  obtain ⟨rt, sbr, majority, span, view⟩ := resolving.runtime
  rw [← d.handlePdu_sbr pdu] at sbr
  rcases d.handlePdu_state pdu with eq | ⟨hcar, mem, merged⟩
  · exact ⟨eq ▸ resolving.marks, rt, sbr, majority, span, eq ▸ view⟩
  have reports : (d.handlePdu pdu).1.state.reachability = d.state.reachability := by
    rw [merged, mergeState_eq]
  refine ⟨reports ▸ resolving.marks, rt, sbr, majority, span, ?_⟩
  have h : d.state.Distinct ∧ d.state.members.map Member.address ⊆ sides.all := by
    rcases view with ⟨unif, -⟩ | none | unif
    · exact ⟨unif.distinct, unif.addresses.subset⟩
    · simp [MembershipState.Distinct, Keyed.Distinct, none]
    · exact ⟨unif.distinct, unif.addresses.subset⟩
  rw [merged]
  rcases views hcar mem with up | none | down
  · rcases view with ⟨-, within⟩ | gone
    · exact .inl ⟨up.mergeState h.1 h.2, within⟩
    · exact absurd (fresh hcar mem up.holdsUp) gone.not_holdsUp
  · rwa [mergeState_nil none]
  · exact .inr (.inr (down.mergeState h.1 h.2))

namespace SplitNet

/-- All members are up on every node, whose resolver has not seen the split yet. -/
structure Partitioned (sides : Sides) (stableAfter : Address → Nat) (net : SplitNet) : Prop where
  selfAddr : ∀ node ∈ sides.all, (net.nodes node).selfAddr = node
  up : ∀ node ∈ sides.all, Uniform sides .up (net.nodes node).state
  marks : ∀ node ∈ sides.all, Marks sides node (net.nodes node).state.reachability
  sbr : ∀ node ∈ sides.all,
    (net.nodes node).sbr = some (SbrRuntime.new KeepMajorityStrategy.decide (stableAfter node))
  sent : net.sent = []
  ticks : ∀ node, net.ticks node = []

/-- A node of a side holds a member of that side up. -/
def KeepsUp (net : SplitNet) (side : List Address) : Prop :=
  ∃ node ∈ side, ∃ m ∈ (net.nodes node).state.members, m.status = .up ∧ m.address ∈ side
deriving Decidable

/-- Every daemon has run ticks more than its margin apart. -/
def Spanned (sides : Sides) (stableAfter : Address → Nat) (net : SplitNet) : Prop :=
  ∀ node ∈ sides.all, ∃ first ∈ net.ticks node, ∃ last ∈ net.ticks node, first + stableAfter node < last
deriving Decidable

structure Resolved (sides : Sides) (stableAfter : Address → Nat) (net : SplitNet) : Prop where
  nodes : ∀ node ∈ sides.all, Resolving sides node (stableAfter node) (net.ticks node) (net.nodes node)
  sent : ∀ message ∈ net.sent, ∀ carried ∈ message.2.2.carried,
    Uniform sides .up carried.2 ∨ Gone sides carried.2

variable {stableAfter : Address → Nat} {net next : SplitNet}

theorem Partitioned.resolved (parted : net.Partitioned sides stableAfter) : net.Resolved sides stableAfter where
  nodes := fun n mem => ⟨parted.marks n mem, _, parted.sbr n mem, rfl, rfl,
    .inl ⟨parted.up n mem, parted.ticks n⟩⟩
  sent := by simp [parted.sent]

theorem Resolved.view (res : net.Resolved sides stableAfter) (mem : node ∈ sides.all) :
    Uniform sides .up (net.nodes node).state ∨ Gone sides (net.nodes node).state := by
  obtain ⟨rt, _, _, _, view⟩ := (res.nodes node mem).runtime
  exact view.imp_left And.left

/-- One daemon handles a command; what it sends are its own members. -/
theorem Resolved.handleAt (res : net.Resolved sides stableAfter) (mem : node ∈ sides.all) {cmd : DaemonCmd}
    {ticks : Address → List Nat} (elsewhere : ∀ other, other ≠ node → ticks other = net.ticks other)
    (here : Resolving sides node (stableAfter node) (ticks node) ((net.nodes node).handle cmd).1)
    (own : ∀ m ∈ ((net.nodes node).handle cmd).2.sent, ∀ hcar ∈ m.2.carried,
      hcar.2 = (net.nodes node).state) :
    { net.handleAt node cmd with ticks }.Resolved sides stableAfter where
  nodes := by
    intro other inSides
    by_cases eq : other = node
    · subst eq
      simpa [SplitNet.handleAt] using here
    · simpa [SplitNet.handleAt, eq, elsewhere other eq] using res.nodes other inSides
  sent := by
    intro m sent hcar inMessage
    rcases mem_append.mp sent with earlier | new
    · exact res.sent m earlier hcar inMessage
    obtain ⟨ans, hans, rfl⟩ := mem_map.mp new
    rw [own ans hans hcar inMessage]
    exact res.view mem

theorem Resolved.step (even : sides.left.length = sides.right.length) (res : net.Resolved sides stableAfter)
    {act : SplitAction} (apart : net.Apart sides act) (fresh : net.NoRevival act)
    (taken : net.step act = some next) : next.Resolved sides stableAfter := by
  cases act with
  | tick n t =>
    cases taken
    obtain ⟨mem, latest⟩ := apart
    refine res.handleAt mem (fun other apart => Function.update_of_ne apart ..) ?_ fun m sent => ?_
    · rw [Function.update_self]
      exact (res.nodes n mem).doTick even latest
    · simp [Daemon.doTick_carried _ t sent]
  | deliver i n =>
    simp only [SplitNet.step] at taken
    split at taken
    · cases taken
    next snd tgt pdu found =>
      split at taken
      · cases taken
        have del := res.sent _ (mem_of_getElem? found)
        exact res.handleAt apart.1 (fun _ _ => rfl)
          ((res.nodes n apart.1).handlePdu del (fresh _ found))
          fun m => Daemon.handlePdu_carried _ pdu
      · cases taken

/-- Beyond the margin no daemon holds a member up any more. -/
theorem Resolved.not_holdsUp (res : net.Resolved sides stableAfter) (spanned : net.Spanned sides stableAfter)
    (mem : node ∈ sides.all) : ¬ HoldsUp (net.nodes node).state := by
  obtain ⟨rt, -, -, span, view⟩ := (res.nodes node mem).runtime
  obtain ⟨first, early, last, late, beyond⟩ := spanned node mem
  rcases view with ⟨-, within⟩ | gone
  · rw [← span] at beyond
    exact absurd beyond (within.not_spanning early late)
  · exact gone.not_holdsUp

/-- On sides of one size, and with no member brought back by an envelope, the two sides
never keep members up beside each other. -/
theorem split_resolved {sides : Sides} {stableAfter : Address → Nat} {net final : SplitNet}
    {actions : List SplitAction} (partitioned : net.Partitioned sides stableAfter)
    (even : sides.left.length = sides.right.length)
    (run : Run step (fun net action => net.Apart sides action ∧ net.NoRevival action) net actions final)
    (spanned : final.Spanned sides stableAfter) : ¬ (final.KeepsUp sides.left ∧ final.KeepsUp sides.right) := by
  have resolved := run.invariant (Resolved sides stableAfter)
    (fun _ _ _ resolved guard taken => resolved.step even guard.1 guard.2 taken) partitioned.resolved
  rintro ⟨⟨node, onLeft, m, mem, up, -⟩, -⟩
  exact resolved.not_holdsUp spanned (mem_append_left _ onLeft) ⟨m, mem, up⟩

def reports (sides : Sides) (node : Address) : Reachability where
  records :=
    { entries := (sides.across node).map fun far => ⟨(node, far), .unreachable⟩
      nodupKeys := by
        have distinct := (List.nodup_append.mp ((sides.all_perm node).nodup_iff.mp sides.nodup)).2.1
        rw [List.NodupKeys, List.keys, List.map_map]
        exact distinct.map fun _ _ same => (Prod.mk.inj same).2 }

theorem marks_reports (sides : Sides) (n : Address) : Marks sides n (reports sides n) := by
  intro addr _
  simp [reports, Reachability.isReachable, Reachability.status]

def splitAt (sides : Sides) (version : Address → VectorClock) : SplitNet where
  nodes := fun node =>
    { selfAddr := node
      state :=
        { members := sides.all.map fun address => { Member.new address [] with status := .up }
          reachability := reports sides node }
      version := version node
      sbr := some (.new KeepMajorityStrategy.decide 5)
      lastLeader := none
      cursor := 0 }
  sent := []
  ticks := fun _ => []

theorem splitAt_partitioned (sides : Sides) (ver : Address → VectorClock) :
    (splitAt sides ver).Partitioned sides fun _ => 5 where
  selfAddr := fun _ _ => rfl
  up := fun _ _ => by
    constructor
    · simp [splitAt]
    · simp [splitAt, Function.comp_def, Member.new]
  marks := fun n _ => marks_reports sides n
  sbr := fun _ _ => rfl
  sent := rfl
  ticks := fun _ => rfl

def tickAll (sides : Sides) (now : Nat) : List SplitAction := sides.all.map fun node => .tick node now

def evenSides : Sides where
  left := [.localTo "a", .localTo "b"]
  right := [.localTo "c", .localTo "d"]
  leftSome := by decide
  rightSome := by decide
  distinct := by decide +kernel

def unevenSides : Sides where
  left := [.localTo "a", .localTo "b"]
  right := [.localTo "c"]
  leftSome := by decide
  rightSome := by decide
  distinct := by decide +kernel

def pairSchedule : List SplitAction := tickAll evenSides 0 ++ [.deliver 0 (.localTo "b")] ++ tickAll evenSides 10

theorem split_resolved_pairs :
    ∃ final, Run step (fun net action => net.Apart evenSides action ∧ net.NoRevival action)
        (splitAt evenSides fun _ => .new) pairSchedule final ∧
      final.Spanned evenSides (fun _ => 5) ∧ ¬ (final.KeepsUp evenSides.left ∧ final.KeepsUp evenSides.right) := by
  have executed : ∃ final, Run step (fun net action => net.Apart evenSides action ∧ net.NoRevival action)
      (splitAt evenSides fun _ => .new) pairSchedule final ∧ final.Spanned evenSides (fun _ => 5) :=
    Run.exists_of_foldlM (by decide +kernel)
  obtain ⟨final, run, spanned⟩ := executed
  exact ⟨final, run, spanned, split_resolved (splitAt_partitioned evenSides _) rfl run spanned⟩

/-- The minority is told to down itself and keeps its member up. -/
theorem minority_keeps_up :
    (splitAt unevenSides fun _ => .new).Partitioned unevenSides (fun _ => 5) ∧
    ∃ final, Run step (fun net action => net.Apart unevenSides action ∧ net.NoRevival action)
        (splitAt unevenSides fun _ => .new) (tickAll unevenSides 0 ++ tickAll unevenSides 10) final ∧
      final.Spanned unevenSides (fun _ => 5) ∧
      final.KeepsUp unevenSides.left ∧ final.KeepsUp unevenSides.right :=
  ⟨splitAt_partitioned unevenSides _, Run.exists_of_foldlM (by decide +kernel)⟩

end SplitNet

end Atomr.Cluster
