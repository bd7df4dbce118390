import Atomr.Cluster.Membership
import Atomr.Cluster.VectorClock
import Atomr.Library.Runs

/-! The adapter that runs gossip over the remote system.

Two values sit behind locks. The cluster actor merges what it receives into one of them. The
adapter was built with the other one, so its snapshots and what it sends show local updates
only, and received gossip shows when the local value was ahead of it already.
-/

namespace Atomr.Cluster

open Atomr.Core Library List

structure Gossip where
  version : VectorClock
  state : MembershipState

namespace Gossip

def new : Gossip := ⟨.new, .new⟩

def tick (gossip : Gossip) (node : String) : Gossip := { gossip with version := gossip.version.tick node }

/-- Members and records of the other side are visited last and overwrite. -/
def merge (self other : Gossip) : Gossip :=
  let members := self.state.members ++ other.state.members
  let records := self.state.reachability.records.entries ++ other.state.reachability.records.entries
  { version := self.version.merge other.version
    state :=
      { members.foldl MembershipState.addOrUpdate .new with
        reachability := ⟨records.foldl (fun held record => held.insert record.1 record.2) ∅⟩ } }

end Gossip

inductive TransportError where
  | notAssociated (target : String)
  deriving DecidableEq, Repr

structure ClusterActor where
  state : Nat

structure ClusterRemoteAdapter where
  state : Nat
  clusterPath : String
  selfAddress : Address

/-- A started adapter with its actor and the values behind the locks. What was handed to remote
references is logged with the versions known by then; neither record is read by the code. -/
structure AdapterSystem where
  locks : List Gossip
  actor : ClusterActor
  adapter : ClusterRemoteAdapter
  known : List VectorClock
  sent : List (String × Gossip × List VectorClock)

namespace AdapterSystem

variable (system : AdapterSystem)

def read (lock : Nat) : Gossip := system.locks[lock]?.getD .new

def write (lock : Nat) (gossip : Gossip) : AdapterSystem :=
  { system with locks := system.locks.set lock gossip }

/-- The first lock is shared with the actor; the adapter is given a new one. -/
def start (localAddress : Address) : AdapterSystem where
  locks := [.new, .new]
  actor := ⟨0⟩
  adapter := ⟨1, "/user/cluster", localAddress⟩
  known := []
  sent := []

def handle (msg : Gossip) : AdapterSystem :=
  let merged := (system.read system.actor.state).merge msg
  { system.write system.actor.state merged with known := system.known ++ [msg.version] }

def snapshot : Gossip := system.read system.adapter.state

def updateLocal (f : Gossip → Gossip) : AdapterSystem :=
  { system.write system.adapter.state (f system.snapshot) with
    known := system.known ++ [(f system.snapshot).version] }

def sendGossip (peer : Address) (selectable : String → Bool) : Except TransportError AdapterSystem :=
  let target := peer.display ++ system.adapter.clusterPath
  if selectable target then
    .ok { system with sent := system.sent ++ [(target, system.read system.adapter.state, system.known)] }
  else .error (.notAssociated target)

end AdapterSystem

inductive AdapterAction where
  | handle (msg : Gossip)
  | updateLocal (f : Gossip → Gossip)
  | sendGossip (peer : Address) (selectable : String → Bool)

namespace AdapterSystem

def step (system : AdapterSystem) : AdapterAction → Option AdapterSystem
  | .handle msg => some (system.handle msg)
  | .updateLocal f => some (system.updateLocal f)
  | .sendGossip peer selectable =>
    match system.sendGossip peer selectable with
    | .ok next => some next
    | .error _ => some system

/-- The snapshot is at least as new as everything handled or written so far. -/
def Shown (system : AdapterSystem) : Prop := ∀ version ∈ system.known, version ≤ system.snapshot.version

/-- A message brings nothing that the adapter has not written itself, and no update goes back. -/
def BringsNothing (system : AdapterSystem) : AdapterAction → Prop
  | .handle msg => msg.version ≤ system.snapshot.version
  | .updateLocal f => system.snapshot.version ≤ (f system.snapshot).version
  | .sendGossip _ _ => True

instance (system : AdapterSystem) (action : AdapterAction) : Decidable (system.BringsNothing action) := by
  cases action <;> unfold BringsNothing <;> infer_instance

structure Separate (system : AdapterSystem) : Prop where
  actor : system.actor.state = 0
  adapter : system.adapter.state = 1
  locks : system.locks.length = 2
  written : system.snapshot.version ∈ system.known ∨ system.snapshot.version = .new

variable {system next : AdapterSystem} {action : AdapterAction}

theorem Separate.snapshot_handle (sep : system.Separate) (m : Gossip) :
    (system.handle m).snapshot = system.snapshot := by
  have other : ((system.locks.set system.actor.state ((system.read system.actor.state).merge m)))[
      system.adapter.state]? = system.locks[system.adapter.state]? := by
    rw [List.getElem?_set_ne]
    rw [sep.actor, sep.adapter]
    decide
  exact congrArg (·.getD .new) other

theorem Separate.snapshot_updateLocal (sep : system.Separate) (f : Gossip → Gossip) :
    (system.updateLocal f).snapshot = f system.snapshot := by
  have bound : system.adapter.state < system.locks.length := by
    rw [sep.adapter, sep.locks]
    decide
  have eq := List.getElem?_set_self (a := f system.snapshot) bound
  exact congrArg (·.getD .new) eq

theorem sendGossip_sent {pr : Address} {sel : String → Bool}
    (sent : system.sendGossip pr sel = .ok next) :
    next = { system with
      sent := system.sent ++ [(pr.display ++ system.adapter.clusterPath, system.snapshot, system.known)] } := by
  unfold sendGossip at sent
  dsimp only at sent
  split at sent
  · cases sent
    rfl
  · cases sent

/-- The ways a step changes what the adapter shows, knows and has sent. -/
theorem step_cases (taken : system.step action = some next) :
    (∃ m, action = .handle m ∧ next = system.handle m) ∨
    (∃ f, action = .updateLocal f ∧ next = system.updateLocal f) ∨
    (∃ pr sel, action = .sendGossip pr sel ∧
      (next = system ∨ ∃ tgt, next = { system with
        sent := system.sent ++ [(tgt, system.snapshot, system.known)] })) := by
  cases action with
  | handle m =>
    cases taken
    exact .inl ⟨m, rfl, rfl⟩
  | updateLocal f =>
    cases taken
    exact .inr (.inl ⟨f, rfl, rfl⟩)
  | sendGossip pr sel =>
    refine .inr (.inr ⟨pr, sel, rfl, ?_⟩)
    rw [step] at taken
    cases out : system.sendGossip pr sel with
    | ok post =>
      rw [out] at taken
      cases taken
      exact .inr ⟨_, sendGossip_sent out⟩
    | error failed =>
      rw [out] at taken
      cases taken
      exact .inl rfl

theorem separate_step (sep : system.Separate) (taken : system.step action = some next) : next.Separate := by
  obtain ⟨m, rfl, rfl⟩ | ⟨f, rfl, rfl⟩ | ⟨pr, sel, rfl, rfl | ⟨tgt, rfl⟩⟩ := step_cases taken
  · have locks : (system.handle m).locks.length = 2 := by
      rw [← sep.locks]
      exact length_set
    refine ⟨sep.actor, sep.adapter, locks, ?_⟩
    rw [sep.snapshot_handle]
    exact sep.written.imp_left (mem_append_left _)
  · have locks : (system.updateLocal f).locks.length = 2 := by
      rw [← sep.locks]
      exact length_set
    refine ⟨sep.actor, sep.adapter, locks, .inl ?_⟩
    rw [sep.snapshot_updateLocal]
    exact mem_concat_self
  · exact sep
  · exact ⟨sep.actor, sep.adapter, sep.locks, sep.written⟩

/-- Whether everything is still shown after a step is decided by that step alone. -/
theorem shown_step_iff (sep : system.Separate) (shown : system.Shown) (taken : system.step action = some next) :
    next.Shown ↔ system.BringsNothing action := by
  obtain ⟨m, rfl, rfl⟩ | ⟨f, rfl, rfl⟩ | ⟨pr, sel, rfl, rfl | ⟨tgt, rfl⟩⟩ := step_cases taken
  · rw [Shown, sep.snapshot_handle]
    constructor
    · intro all
      exact all m.version mem_concat_self
    · exact fun cov => forall_mem_append.mpr ⟨shown, forall_mem_singleton.mpr cov⟩
  · rw [Shown, sep.snapshot_updateLocal]
    constructor
    · -- The value before the update was written by an update, or is the empty one.
      intro all
      rcases sep.written with written | fresh
      · exact all _ (mem_append_left _ written)
      · intro n
        rw [fresh]
        exact Nat.zero_le _
    · intro forward ver mem n
      rcases mem_append.mp mem with earlier | new
      · exact (shown ver earlier n).trans (forward n)
      · rw [mem_singleton.mp new]
  · exact ⟨fun _ => trivial, fun _ => shown⟩
  · exact ⟨fun _ => trivial, fun _ => shown⟩

/-- Each transmitted gossip covers what was known when it was sent. -/
def Relayed (system : AdapterSystem) : Prop :=
  ∀ message ∈ system.sent, ∀ version ∈ message.2.2, version ≤ message.2.1.version

theorem relayed_step (shown : system.Shown) (relayed : system.Relayed) (taken : system.step action = some next) :
    next.Relayed := by
  obtain ⟨m, rfl, rfl⟩ | ⟨f, rfl, rfl⟩ | ⟨pr, sel, rfl, rfl | ⟨tgt, rfl⟩⟩ := step_cases taken
  · exact relayed
  · exact relayed
  · exact relayed
  · exact forall_mem_append.mpr ⟨relayed, forall_mem_singleton.mpr shown⟩

theorem start_separate (laddr : Address) : (start laddr).Separate := ⟨rfl, rfl, rfl, .inr rfl⟩

/-- In runs that bring nothing new the snapshot shows everything known and is what is sent, so
each transmitted gossip covers what was known then; the first other step breaks this. -/
theorem shown_while_nothing_is_brought {localAddress : Address} {actions : List AdapterAction} {system : AdapterSystem}
    (run : Run step BringsNothing (start localAddress) actions system) :
    system.Shown ∧ system.Relayed ∧
    (∀ peer selectable next, system.sendGossip peer selectable = .ok next → ∃ target,
      next.sent = system.sent ++ [(target, system.snapshot, system.known)]) ∧
    ∀ action next, system.step action = some next → (next.Shown ↔ system.BringsNothing action) := by
  obtain ⟨separate, shown, relayed⟩ := run.invariant (fun system => system.Separate ∧ system.Shown ∧ system.Relayed)
    (fun system action next held allowed taken =>
      ⟨separate_step held.1 taken, (shown_step_iff held.1 held.2.1 taken).mpr allowed,
        relayed_step held.2.1 held.2.2 taken⟩)
    ⟨start_separate localAddress, fun _ absent => (by cases absent), fun _ absent => (by cases absent)⟩
  refine ⟨shown, relayed, fun peer selectable next sent => ⟨_, congrArg AdapterSystem.sent (sendGossip_sent sent)⟩, ?_⟩
  intro action next taken
  exact shown_step_iff separate shown taken

def ownGossip : List AdapterAction :=
  [.updateLocal (·.tick "A"), .handle (Gossip.new.tick "A"), .sendGossip (.localTo "B") fun _ => true]

theorem shown_after_own_gossip :
    ∃ system, Run step BringsNothing (start (.localTo "A")) ownGossip system ∧ system.known.length = 2 ∧
      system.Shown ∧ system.Relayed := by
  refine Run.executed rfl fun run => ?_
  obtain ⟨shown, relayed, _⟩ := shown_while_nothing_is_brought run
  exact ⟨rfl, shown, relayed⟩

/-- One message of another node is handled, and what is sent next does not hold it. -/
theorem handled_gossip_not_shown :
    ∃ system, Run step (fun _ _ => True) (start (.localTo "A"))
        [.handle (Gossip.new.tick "B"), .sendGossip (.localTo "C") fun _ => true] system ∧
      (Gossip.new.tick "B").version.get "B" = 1 ∧ system.snapshot.version.get "B" = 0 ∧
      (system.sent.map fun message => message.2.1.version.get "B") = [0] :=
  Run.exists_of_foldlM (by decide +kernel)

end AdapterSystem

end Atomr.Cluster
