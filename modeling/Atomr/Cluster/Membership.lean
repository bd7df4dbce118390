import Atomr.Core.Address
import Atomr.Library.Keyed
import Atomr.Library.Table
import Mathlib.Data.List.Sort

/-! Members, reachability and the membership state with its leader actions. -/

namespace Atomr.Cluster

open Atomr.Core Library

inductive MemberStatus where
  | joining
  | weaklyUp
  | up
  | leaving
  | exiting
  | down
  | removed
  deriving DecidableEq, Repr

structure Member where
  address : Address
  upNumber : Int
  status : MemberStatus
  roles : List String
  deriving DecidableEq, Repr

def Member.new (address : Address) (roles : List String) : Member := ⟨address, 0, .joining, roles⟩

inductive ClusterEvent where
  | memberJoined (member : Member)
  | memberUp (member : Member)
  | memberLeft (member : Member)
  | memberExited (member : Member)
  | memberDowned (member : Member)
  | memberRemoved (member : Member) (previous : MemberStatus)
  | leaderChanged (previous next : Option Address)
  | convergence (reached : Bool)
  deriving DecidableEq

inductive ReachabilityStatus where
  | reachable
  | unreachable
  | terminated
  deriving DecidableEq, Repr

structure Reachability where
  records : Table (Address × Address) ReachabilityStatus

namespace Reachability

def new : Reachability := ⟨∅⟩

/-- A report is dropped after a termination. -/
def report (status : ReachabilityStatus) (reachability : Reachability) (observer subject : Address) : Reachability :=
  match reachability.records.lookup (observer, subject) with
  | some .terminated => reachability
  | _ => ⟨reachability.records.insert (observer, subject) status⟩

def unreachable : Reachability → Address → Address → Reachability := report .unreachable

def reachable : Reachability → Address → Address → Reachability := report .reachable

def terminated (reachability : Reachability) (observer subject : Address) : Reachability :=
  ⟨reachability.records.insert (observer, subject) .terminated⟩

/-- A termination report wins over all others, an unreachable one over the rest. -/
def status (reachability : Reachability) (subject : Address) : ReachabilityStatus :=
  let reports := reachability.records.entries.filter fun record => record.1.2 = subject
  if reports.any fun record => record.2 = .terminated then .terminated
  else if reports.any fun record => record.2 = .unreachable then .unreachable
  else .reachable

def isReachable (reachability : Reachability) (subject : Address) : Bool := reachability.status subject = .reachable

@[simp] theorem isReachable_new (subject : Address) : new.isReachable subject = true := rfl

variable {p : Address × Address} {reachability : Reachability}
  (h : reachability.records.lookup p = some .terminated)
include h

theorem lookup_report {status : ReachabilityStatus} {observer subject : Address} :
    (reachability.report status observer subject).records.lookup p = some .terminated := by
  unfold report
  split
  · exact h
  next other =>
    rw [Table.lookup_insert_if]
    split
    next eq => exact absurd (eq ▸ h) other
    · exact h

theorem status_of_terminated : reachability.status p.2 = .terminated := by
  apply if_pos
  rw [List.any_eq_true]
  refine ⟨⟨p, .terminated⟩, List.mem_filter.mpr ⟨AList.mem_lookup_iff.mp h, ?_⟩, ?_⟩
  · exact decide_eq_true rfl
  · exact decide_eq_true rfl

end Reachability

structure MembershipState where
  members : List Member
  reachability : Reachability

def isConverged (state : MembershipState) : Bool :=
  state.members.all fun m =>
    m.status = .down || m.status = .removed || state.reachability.isReachable m.address

def nextStatus (current : MemberStatus) (converged : Bool) : Option MemberStatus :=
  match current, converged with
  | .joining, true => some .up
  | .leaving, true => some .exiting
  | .exiting, true => some .removed
  -- A downed member is removed without waiting for convergence.
  | .down, _ => some .removed
  | _, _ => none

/-- The eligible member whose printed address is lowest; the sort is stable. -/
def electLeader (state : MembershipState) : Option Address :=
  let eligible := state.members.filter fun m =>
    (m.status = .up || m.status = .leaving) && state.reachability.isReachable m.address
  (eligible.insertionSort fun a b => a.address.display ≤ b.address.display).head?.map Member.address

namespace MembershipState

def new : MembershipState := ⟨[], .new⟩

def find (state : MembershipState) (address : Address) : Option Member :=
  Keyed.find Member.address state.members address

def setStatus (state : MembershipState) (address : Address) (status : MemberStatus) : MembershipState :=
  { state with members := Keyed.modify Member.address state.members address fun m => { m with status } }

def addOrUpdate (state : MembershipState) (m : Member) : MembershipState :=
  { state with members := Keyed.put Member.address state.members m }

def applyTransition (acc : MembershipState × List ClusterEvent) (transition : Address × MemberStatus) :
    MembershipState × List ClusterEvent :=
  let (state, events) := acc
  let (address, next) := transition
  match state.find address with
  | none => acc
  | some m =>
    let updated := { m with status := next }
    let emitted := match next with
      | .up => [ClusterEvent.memberUp updated]
      | .exiting => [.memberExited updated]
      | .removed => [.memberRemoved updated m.status]
      | _ => []
    (state.setStatus address next, events ++ emitted)

def applyLeaderActions (state : MembershipState) : MembershipState × List ClusterEvent :=
  let converged := isConverged state
  let transitions := state.members.filterMap fun m =>
    (nextStatus m.status converged).map fun next => (m.address, next)
  -- The transitions are computed from the state before the first of them is applied.
  let (moved, events) := transitions.foldl applyTransition (state, [])
  ({ moved with members := moved.members.filter fun m => m.status ≠ .removed },
    events ++ if converged then [.convergence true] else [])

def join (state : MembershipState) (m : Member) : MembershipState × ClusterEvent :=
  (state.addOrUpdate m, .memberJoined m)

/-- Move a member whose status is one of `allowed`; the two operator commands differ
in the statuses they accept and in the event. -/
def transition (state : MembershipState) (address : Address) (allowed : List MemberStatus)
    (status : MemberStatus) (event : Member → ClusterEvent) : MembershipState × Option ClusterEvent :=
  match state.find address with
  | none => (state, none)
  | some m =>
    if m.status ∈ allowed then (state.setStatus address status, some (event { m with status }))
    else (state, none)

def leave (state : MembershipState) (address : Address) : MembershipState × Option ClusterEvent :=
  state.transition address [.up, .weaklyUp] .leaving .memberLeft

def down (state : MembershipState) (address : Address) : MembershipState × Option ClusterEvent :=
  state.transition address [.up, .weaklyUp, .leaving] .down .memberDowned

def Distinct (state : MembershipState) : Prop := Keyed.Distinct Member.address state.members

/-- What peers compare: the status and the roles recorded for an address. -/
def view (state : MembershipState) (address : Address) : Option (MemberStatus × List String) :=
  (state.find address).map fun m => (m.status, m.roles)

theorem foldl_addOrUpdate (ms : List Member) (st : MembershipState) :
    ms.foldl addOrUpdate st =
      { st with members := ms.foldl (Keyed.put Member.address) st.members } := by
  induction ms generalizing st with
  | nil => rfl
  | cons m rest ih => exact ih (st.addOrUpdate m)

theorem map_setStatus (st : MembershipState) (addr : Address) (status : MemberStatus) :
    (st.setStatus addr status).members.map Member.address = st.members.map Member.address := by
  apply Keyed.map_modify
  intro m
  rfl

theorem applyTransition_keeps (acc : MembershipState × List ClusterEvent) (move : Address × MemberStatus) :
    (applyTransition acc move).1.members.map Member.address = acc.1.members.map Member.address ∧
      (applyTransition acc move).1.reachability = acc.1.reachability := by
  simp only [applyTransition]
  split
  · exact ⟨rfl, rfl⟩
  · exact ⟨map_setStatus .., rfl⟩

theorem foldl_applyTransition_keeps (moves : List (Address × MemberStatus))
    (acc : MembershipState × List ClusterEvent) :
    (moves.foldl applyTransition acc).1.members.map Member.address = acc.1.members.map Member.address ∧
      (moves.foldl applyTransition acc).1.reachability = acc.1.reachability := by
  induction moves generalizing acc with
  | nil => exact ⟨rfl, rfl⟩
  | cons move rest ih =>
    have first := applyTransition_keeps acc move
    have later := ih (applyTransition acc move)
    exact ⟨later.1.trans first.1, later.2.trans first.2⟩

theorem applyLeaderActions_reachability (st : MembershipState) :
    st.applyLeaderActions.1.reachability = st.reachability :=
  (foldl_applyTransition_keeps _ _).2

variable {s : MembershipState}

theorem applyLeaderActions_distinct (nodup : s.Distinct) : s.applyLeaderActions.1.Distinct := by
  -- The moves keep the addresses, and dropping removed members only shortens the list.
  apply List.Nodup.sublist (List.filter_sublist.map Member.address)
  rw [(foldl_applyTransition_keeps _ _).1]
  exact nodup

theorem applyLeaderActions_events (conv : isConverged s) : s.applyLeaderActions.2 ≠ [] := by
  simp [applyLeaderActions, conv]

theorem isConverged_of_reachable (reports : s.reachability = .new) : isConverged s := by
  simp [isConverged, reports]

theorem transition_keeps (st : MembershipState) (addr : Address) (allowed : List MemberStatus)
    (status : MemberStatus) (ev : Member → ClusterEvent) :
    (st.transition addr allowed status ev = (st, none)) ∨
      ∃ m, st.transition addr allowed status ev = (st.setStatus addr status, some (ev m)) := by
  unfold transition
  split
  · exact .inl rfl
  · split
    · exact .inr ⟨_, rfl⟩
    · exact .inl rfl

end MembershipState

end Atomr.Cluster
