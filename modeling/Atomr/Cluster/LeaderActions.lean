import Atomr.Cluster.Membership

/-! The leader actions in one step.

The code collects transitions in a first pass, finds the members again by address in a second one
and drops removed members at the end. While no address is held twice, each member is moved on its own.
-/

namespace Atomr.Cluster

open Atomr.Core Library List Keyed

section Specification
variable (converged : Bool) (m : Member)

def Member.advance : Member := { m with status := (nextStatus m.status converged).getD m.status }

def Member.leaderEvent : Option ClusterEvent :=
  match nextStatus m.status converged with
  | some .up => some (.memberUp (m.advance converged))
  | some .exiting => some (.memberExited (m.advance converged))
  | some .removed => some (.memberRemoved (m.advance converged) m.status)
  | _ => none

/-- The member is not removed and is not about to be. -/
def Member.Stays : Prop := m.status ≠ .removed ∧ nextStatus m.status converged ≠ some .removed
deriving Decidable

theorem Member.stays_iff : m.Stays converged ↔ (m.advance converged).status ≠ .removed := by
  cases next : nextStatus m.status converged with
  | none => simp [Stays, advance, next]
  | some status =>
    -- A removed member has no next status, so only the next one counts.
    have hp : m.status ≠ .removed := by
      intro removed
      rw [removed] at next
      cases converged <;> cases next
    simp [Stays, advance, next, hp]

end Specification

def MembershipState.Quiet (state : MembershipState) : Prop :=
  ∀ m ∈ state.members, nextStatus m.status (isConverged state) = none
deriving Decidable

def MembershipState.present (state : MembershipState) : MembershipState :=
  { state with members := state.members.filter fun m => m.status ≠ .removed }

namespace MembershipState

variable {state : MembershipState}

theorem applyLeaderActions_quiet (quiet : state.Quiet) :
    state.applyLeaderActions = (state.present, if isConverged state then [.convergence true] else []) := by
  have still : (state.members.filterMap fun m =>
      (nextStatus m.status (isConverged state)).map fun next => (m.address, next)) = [] := by
    rw [filterMap_eq_nil_iff]
    intro m mem
    rw [quiet m mem, Option.map_none]
  simp only [applyLeaderActions, still]
  rfl

variable {conv : Bool} {reachability : Reachability}

theorem applyTransition_found {pre : List Member} {m : Member} {next : MemberStatus}
    (moved : nextStatus m.status conv = some next) (ha : m.address ∉ pre.map Member.address)
    (rest : List Member) (events : List ClusterEvent) :
    applyTransition (⟨pre ++ m :: rest, reachability⟩, events) (m.address, next) =
      (⟨pre ++ m.advance conv :: rest, reachability⟩, events ++ (m.leaderEvent conv).toList) := by
  have updated : m.advance conv = { m with status := next } := by
    rw [Member.advance, moved]
    rfl
  have found : find ⟨pre ++ m :: rest, reachability⟩ m.address = some m := by
    unfold find
    rw [find_append_of_not_mem ha, find_cons, if_pos rfl]
  have set : setStatus ⟨pre ++ m :: rest, reachability⟩ m.address next =
      ⟨pre ++ m.advance conv :: rest, reachability⟩ := by
    unfold setStatus
    rw [modify_append ha, Keyed.modify, if_pos rfl, updated]
  simp only [applyTransition, found, set, Prod.mk.injEq, true_and]
  rw [Member.leaderEvent, moved, updated]
  cases next <;> rfl

/-- The members behind the loop have been moved, those ahead of it are as they were. -/
theorem foldl_applyTransition (conv : Bool) (reachability : Reachability) (rest pre : List Member) (events : List ClusterEvent)
    (nodup : Keyed.Distinct Member.address (pre ++ rest)) :
    (rest.filterMap fun m => (nextStatus m.status conv).map fun next => (m.address, next)).foldl applyTransition
        (⟨pre ++ rest, reachability⟩, events) =
      (⟨pre ++ rest.map (Member.advance conv), reachability⟩,
        events ++ rest.filterMap (Member.leaderEvent conv)) := by
  induction rest generalizing pre events with
  | nil => simp
  | cons m rest ih =>
    have ha : m.address ∉ pre.map Member.address := by
      intro mem
      rw [Keyed.Distinct, map_append] at nodup
      exact (nodup_append.mp nodup).2.2 _ mem _ mem_cons_self rfl
    have later := ih (pre ++ [m.advance conv]) (events ++ (m.leaderEvent conv).toList) (by
      simpa [Keyed.Distinct, Member.advance] using nodup)
    rw [← append_cons, ← append_cons] at later
    rw [map_cons]
    cases moved : nextStatus m.status conv with
    | none =>
      have eq : m.advance conv = m := by rw [Member.advance, moved]; rfl
      have silent : m.leaderEvent conv = none := by rw [Member.leaderEvent, moved]
      rw [eq, silent, Option.toList_none, append_nil] at later
      rw [filterMap_cons_none (by rw [moved]; rfl), filterMap_cons_none silent, eq]
      exact later
    | some status =>
      rw [filterMap_cons_some (by rw [moved]; rfl), foldl_cons, applyTransition_found moved ha, later]
      cases ev : m.leaderEvent conv with
      | none => rw [filterMap_cons_none ev, Option.toList_none, append_nil]
      | some hem => rw [filterMap_cons_some ev, Option.toList_some, append_assoc, singleton_append]

theorem filter_advance (conv : Bool) (ms : List Member) :
    ((ms.map (Member.advance conv)).filter fun m => m.status ≠ .removed) =
      (ms.filter (Member.Stays conv ·)).map (Member.advance conv) := by
  rw [filter_map]
  congr 1
  apply filter_congr
  intro m _
  exact decide_eq_decide.mpr (m.stays_iff conv).symm

theorem applyLeaderActions_members (nodup : state.Distinct) :
    state.applyLeaderActions.1.members =
      (state.members.filter (Member.Stays (isConverged state) ·)).map (Member.advance (isConverged state)) := by
  have moves := foldl_applyTransition (isConverged state) state.reachability state.members [] [] nodup
  rw [nil_append, nil_append] at moves
  unfold applyLeaderActions
  simp only [moves, filter_advance]

/-- The leader actions keep the members that stay, each moved on its own, and report the moves in their order. -/
theorem applyLeaderActions_eq {state : MembershipState} (distinct : state.Distinct) :
    state.applyLeaderActions =
      (⟨(state.members.filter (Member.Stays (isConverged state) ·)).map (Member.advance (isConverged state)),
          state.reachability⟩,
        state.members.filterMap (Member.leaderEvent (isConverged state)) ++
          if isConverged state then [.convergence true] else []) := by
  have moves := foldl_applyTransition (isConverged state) state.reachability state.members [] [] distinct
  rw [nil_append, nil_append, nil_append] at moves
  unfold applyLeaderActions
  simp only [moves, filter_advance]

/-- A leaving, a downed and a settled member of a state that has converged. -/
theorem applyLeaderActions_eq_three :
    let members : List Member := [⟨.localTo "a", 1, .leaving, []⟩, ⟨.localTo "b", 2, .down, []⟩, ⟨.localTo "c", 3, .up, []⟩]
    let state : MembershipState := ⟨members, .new⟩
    state.Distinct ∧ state.applyLeaderActions.1.members =
        (members.filter (Member.Stays (isConverged state) ·)).map (Member.advance (isConverged state)) ∧
      state.applyLeaderActions.2.length = 3 := by
  intro members state
  have nodup : state.Distinct := by simp [Distinct, Keyed.Distinct, state, members, Address.localTo]
  refine ⟨nodup, congrArg (·.1.members) (applyLeaderActions_eq nodup), ?_⟩
  decide

end MembershipState

end Atomr.Cluster
