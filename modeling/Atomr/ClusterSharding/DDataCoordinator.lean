import Atomr.DistributedData.LastWriterWins

/-! The replicated allocation table of a shard coordinator.

Each coordinator stamps its allocations with its own clock, which starts at the wall clock
and counts on. Merging another table leaves the clock alone, so a table may hold a write
from the future of the clock, and the next allocation of that shard is dropped.
-/

namespace Atomr.ClusterSharding

open Library DistributedData List Table

structure DDataShardCoordinator where
  state : LWWMap String String
  nextTs : Nat

namespace DDataShardCoordinator

/-- The wall clock in nanoseconds is cast to 64 bits. -/
def new (bootstrap : Nat) : DDataShardCoordinator := ⟨.new, bootstrap % 2 ^ 64⟩

variable (coordinator : DDataShardCoordinator)

def tick : Nat × DDataShardCoordinator :=
  (coordinator.nextTs, { coordinator with nextTs := (coordinator.nextTs + 1) % 2 ^ 64 })

def allocate (shardId region : String) : DDataShardCoordinator :=
  let (ts, ticked) := coordinator.tick
  { ticked with state := ticked.state.put shardId region ts }

def regionFor (shardId : String) : Option String := coordinator.state.get shardId

def mergeRemote (remote : LWWMap String String) : DDataShardCoordinator :=
  { coordinator with state := merge coordinator.state remote }

def snapshot : LWWMap String String := coordinator.state

end DDataShardCoordinator

structure Allocated where
  shardId : String
  region : String
  timestamp : Nat
  deriving DecidableEq, Repr

/-- Coordinators with the snapshots taken so far. The allocations that a coordinator has made
or merged, and those behind a snapshot, are records that no coordinator reads. -/
structure Coordinators (ι : Type) where
  nodes : ι → DDataShardCoordinator
  heard : ι → List Allocated
  snapshots : List (LWWMap String String × List Allocated)

inductive CoordinatorAction (ι : Type) where
  | allocate (node : ι) (shardId region : String)
  | snapshot (node : ι)
  | mergeRemote (node : ι) (index : Nat)

namespace Coordinators

variable {ι : Type} [DecidableEq ι]

def start (bootstrap : ι → Nat) : Coordinators ι := ⟨fun i => .new (bootstrap i), fun _ => [], []⟩

def step (net : Coordinators ι) : CoordinatorAction ι → Option (Coordinators ι)
  | .allocate i shardId region =>
    let made : Allocated := ⟨shardId, region, (net.nodes i).nextTs⟩
    some { net with
      nodes := Function.update net.nodes i ((net.nodes i).allocate shardId region)
      heard := Function.update net.heard i (net.heard i ++ [made]) }
  | .snapshot i => some { net with snapshots := net.snapshots ++ [((net.nodes i).snapshot, net.heard i)] }
  | .mergeRemote i index =>
    (net.snapshots[index]?).map fun taken =>
      { net with
        nodes := Function.update net.nodes i ((net.nodes i).mergeRemote taken.1)
        heard := Function.update net.heard i (net.heard i ++ taken.2) }

end Coordinators

/-- A table holds, for each shard, an allocation with the largest timestamp it has heard of. -/
structure Latest (table : LWWMap String String) (heard : List Allocated) : Prop where
  bounded : ∀ made ∈ heard, ∃ held, table.entries.lookup made.shardId = some held ∧ made.timestamp ≤ held.1
  made : ∀ shardId held, table.entries.lookup shardId = some held →
    ∃ made ∈ heard, made.shardId = shardId ∧ made.timestamp = held.1

theorem newer_spec (h : Option (Nat × String)) (written : Nat × String) :
    written.1 ≤ (LWWMap.newer h written).1 ∧
    (∀ pre, h = some pre → pre.1 ≤ (LWWMap.newer h written).1) ∧
    (LWWMap.newer h written = written ∨ h = some (LWWMap.newer h written)) := by
  cases h with
  | none => exact ⟨le_rfl, fun _ ha => (by cases ha), .inl rfl⟩
  | some pre =>
    have only (other : Nat × String) (eq : some pre = some other) : other.1 = pre.1 := by
      cases eq
      rfl
    by_cases kept : pre.1 ≥ written.1
    · have res : LWWMap.newer (some pre) written = pre := if_pos kept
      rw [res]
      exact ⟨kept, fun other eq => (only other eq).le, .inr rfl⟩
    · have res : LWWMap.newer (some pre) written = written := if_neg kept
      rw [res]
      exact ⟨le_rfl, fun other eq => (only other eq).le.trans (by omega), .inl rfl⟩

namespace Latest

variable {table remote : LWWMap String String} {heard heard' : List Allocated}

theorem new : Latest .new [] where
  bounded _ ha := by cases ha
  made _ _ found := by cases found

theorem put (latest : Latest table heard) (sid r : String) (ts : Nat) :
    Latest (table.put sid r ts) (heard ++ [⟨sid, r, ts⟩]) := by
  obtain ⟨covers, kept, origin⟩ := newer_spec (table.entries.lookup sid) (ts, r)
  have lookup (k : String) := lookup_upsert_if table.entries k sid
    fun h => LWWMap.newer h (ts, r)
  constructor
  · intro made mem
    rcases mem_append.mp mem with earlier | new
    · obtain ⟨h, found, below⟩ := latest.bounded made earlier
      by_cases eq : made.shardId = sid
      · rw [eq] at found
        exact ⟨_, (lookup made.shardId).trans (if_pos eq), below.trans (kept h found)⟩
      · exact ⟨h, (lookup made.shardId).trans ((if_neg eq).trans found), below⟩
    · obtain rfl := mem_singleton.mp new
      exact ⟨_, (lookup sid).trans (if_pos rfl), covers⟩
  · intro k h found
    have earlier (found : table.entries.lookup k = some h) :
        ∃ made ∈ heard ++ [⟨sid, r, ts⟩], made.shardId = k ∧ made.timestamp = h.1 := by
      obtain ⟨made, mem, facts⟩ := latest.made k h found
      exact ⟨made, mem_append_left _ mem, facts⟩
    have t := (lookup k).symm.trans found
    by_cases eq : k = sid
    · rw [if_pos eq] at t
      cases t
      rcases origin with written | pre
      · rw [written]
        exact ⟨_, mem_concat_self, eq.symm, rfl⟩
      · exact earlier (eq ▸ pre)
    · rw [if_neg eq] at t
      exact earlier t

theorem merge (latest : Latest table heard) (latest' : Latest remote heard') :
    Latest (merge table remote) (heard ++ heard') := by
  have lookup (k : String) := lookup_mergeWith LWWMap.newer table.entries remote.entries k
  constructor
  · intro made mem
    have e := lookup made.shardId
    rcases mem_append.mp mem with here | there
    · obtain ⟨h, found, below⟩ := latest.bounded made here
      cases sent : remote.entries.lookup made.shardId with
      | none =>
        rw [sent] at e
        exact ⟨h, e.trans found, below⟩
      | some written =>
        rw [sent] at e
        exact ⟨_, e, below.trans ((newer_spec _ written).2.1 h found)⟩
    · obtain ⟨written, sent, below⟩ := latest'.bounded made there
      rw [sent] at e
      exact ⟨_, e, below.trans (newer_spec _ written).1⟩
  · intro k h found
    have here (found : table.entries.lookup k = some h) :
        ∃ made ∈ heard ++ heard', made.shardId = k ∧ made.timestamp = h.1 := by
      obtain ⟨made, mem, facts⟩ := latest.made k h found
      exact ⟨made, mem_append_left _ mem, facts⟩
    have t := (lookup k).symm.trans found
    cases sent : remote.entries.lookup k with
    | none =>
      rw [sent] at t
      exact here t
    | some written =>
      rw [sent] at t
      cases t
      rcases (newer_spec (table.entries.lookup k) written).2.2 with taken | pre
      · rw [taken]
        obtain ⟨made, mem, facts⟩ := latest'.made k written sent
        exact ⟨made, mem_append_right _ mem, facts⟩
      · exact here pre

end Latest

namespace Coordinators

variable {ι : Type} [DecidableEq ι]

def Recorded (net : Coordinators ι) : Prop :=
  (∀ i, Latest (net.nodes i).state (net.heard i)) ∧ ∀ taken ∈ net.snapshots, Latest taken.1 taken.2

theorem recorded_step (net : Coordinators ι) (act : CoordinatorAction ι) (next : Coordinators ι)
    (rec : net.Recorded) (taken : net.step act = some next) : next.Recorded := by
  obtain ⟨ns, snaps⟩ := rec
  cases act with
  | allocate i sid r =>
    cases taken
    refine ⟨fun j => ?_, snaps⟩
    by_cases eq : j = i
    · subst eq
      simpa [DDataShardCoordinator.allocate, DDataShardCoordinator.tick] using (ns j).put _ _ _
    · simpa [eq] using ns j
  | snapshot i =>
    cases taken
    exact ⟨ns, forall_mem_append.mpr ⟨snaps, forall_mem_singleton.mpr (ns i)⟩⟩
  | mergeRemote i idx =>
    obtain ⟨snapshot, found, rfl⟩ := Option.map_eq_some_iff.mp taken
    refine ⟨fun j => ?_, snaps⟩
    by_cases eq : j = i
    · subst eq
      simpa [DDataShardCoordinator.mergeRemote] using (ns j).merge (snaps _ (mem_of_getElem? found))
    · simpa [eq] using ns j

theorem recorded_run {bootstrap : ι → Nat} {acts : List (CoordinatorAction ι)} {net : Coordinators ι}
    (run : Run step (fun _ _ => True) (start bootstrap) acts net) : net.Recorded :=
  run.invariant Recorded (fun st act next rec _ taken => recorded_step st act next rec taken)
    ⟨fun _ => .new, fun _ ha => by cases ha⟩

end Coordinators

theorem DDataShardCoordinator.regionFor_allocate (coord : DDataShardCoordinator) (sid r : String) :
    (coord.allocate sid r).regionFor sid =
      some (LWWMap.newer (coord.state.entries.lookup sid) (coord.nextTs, r)).2 := by
  have lookup := lookup_upsert_if coord.state.entries sid sid
    fun h => LWWMap.newer h (coord.nextTs, r)
  rw [if_pos rfl] at lookup
  exact congrArg (Option.map Prod.snd) lookup

namespace Coordinators

variable {ι : Type} [DecidableEq ι]

/-- After any exchange, an allocation is the one looked up exactly when the clock is ahead of
every allocation of the shard made or merged so far, or the shard was in that region anyway. -/
theorem allocation_takes_effect_iff {bootstrap : ι → Nat} {actions : List (CoordinatorAction ι)}
    {net : Coordinators ι} (run : Run step (fun _ _ => True) (start bootstrap) actions net)
    (node : ι) (shardId region : String) :
    ((net.nodes node).allocate shardId region).regionFor shardId = some region ↔
      (∀ made ∈ net.heard node, made.shardId = shardId → made.timestamp < (net.nodes node).nextTs) ∨
        (net.nodes node).regionFor shardId = some region := by
  have latest := (recorded_run run).1 node
  rw [DDataShardCoordinator.regionFor_allocate, DDataShardCoordinator.regionFor, LWWMap.get]
  cases found : (net.nodes node).state.entries.lookup shardId with
  | none =>
    refine ⟨fun _ => .inl fun made mem eq => ?_, fun _ => rfl⟩
    obtain ⟨held, present, _⟩ := latest.bounded made mem
    rw [eq, found] at present
    cases present
  | some held =>
    -- The clock is ahead of all of them exactly when it is ahead of the entry.
    have ahead : (∀ made ∈ net.heard node, made.shardId = shardId → made.timestamp < (net.nodes node).nextTs) ↔
        held.1 < (net.nodes node).nextTs := by
      constructor
      · intro all
        obtain ⟨made, mem, eq, stamped⟩ := latest.made shardId held found
        exact stamped ▸ all made mem eq
      · intro less made mem eq
        obtain ⟨entry, present, below⟩ := latest.bounded made mem
        rw [eq, found] at present
        cases present
        omega
    rw [ahead, LWWMap.newer]
    by_cases kept : held.1 ≥ (net.nodes node).nextTs
    · rw [if_pos kept]
      exact ⟨.inr, fun cases => cases.resolve_left (by omega)⟩
    · rw [if_neg kept]
      exact ⟨fun _ => .inl (by omega), fun _ => rfl⟩

def skewedClocks : List (CoordinatorAction Bool) := [.allocate true "s" "b", .snapshot true, .mergeRemote false 0]

def skewed (bootstrap : Nat) : Bool → Nat
  | true => 200
  | false => bootstrap

theorem allocation_takes_effect_ahead :
    ∃ net, Run step (fun _ _ => True) (start (skewed 300)) skewedClocks net ∧
      ((net.nodes false).allocate "s" "a").regionFor "s" = some "a" := by
  refine Run.executed rfl fun run => (allocation_takes_effect_iff run false "s" "a").mpr (.inl ?_)
  decide +kernel

/-- The allocation made after the merge has the smaller timestamp and is dropped. -/
theorem allocation_dropped :
    ∃ net, Run step (fun _ _ => True) (start (skewed 100)) skewedClocks net ∧
      ((net.nodes false).allocate "s" "a").regionFor "s" = some "b" :=
  Run.exists_of_foldlM (by decide +kernel)

end Coordinators

end Atomr.ClusterSharding
