import Atomr.Library.Preference
import Atomr.Library.Table

/-! Pruning markers of removed nodes, and their merge.

A marker names the owner that takes over from a removed node. Of two markers the one in the later phase,
or with the later round, is kept; where neither is later, the side that is merged into keeps its own.
-/

namespace Atomr.DistributedData

open Library

inductive PruningPhase where
  | initialized (owner : String)
  | performed (owner : String) (obsoleteAt : Nat)
  deriving DecidableEq, Repr

namespace PruningPhase

def owner : PruningPhase → String
  | .initialized owner => owner
  | .performed owner _ => owner

def rank : PruningPhase → Nat
  | .initialized _ => 0
  | .performed _ obsoleteAt => obsoleteAt + 1

theorem eq_of_rank {p q : PruningPhase} (rank : p.rank = q.rank) (ow : p.owner = q.owner) : p = q := by
  cases p <;> cases q <;> simp_all [PruningPhase.rank, PruningPhase.owner]

end PruningPhase

structure PruningState where
  markers : Table String PruningPhase

namespace PruningState

def new : PruningState := ⟨∅⟩

/-- Announce that a node is pruned. A marker in any phase stays. -/
def initializeMarker (state : PruningState) (removedNode owner : String) : PruningState :=
  ⟨state.markers.upsert removedNode fun held => held.getD (.initialized owner)⟩

def markPerformed (state : PruningState) (removedNode : String) (obsoleteAt : Nat) : Bool × PruningState :=
  match state.markers.lookup removedNode with
  | some (.initialized owner) => (true, ⟨state.markers.insert removedNode (.performed owner obsoleteAt)⟩)
  | _ => (false, state)

def marker (node : String) (state : PruningState) : Option PruningPhase := state.markers.lookup node

def owner (state : PruningState) (removedNode : String) : Option String :=
  (state.marker removedNode).map PruningPhase.owner

/-- What is held at a node after another state's marker for it was visited. -/
def visit : Option PruningPhase → PruningPhase → PruningPhase
  | none, v => v
  | some (.initialized _), .performed owner obsoleteAt => .performed owner obsoleteAt
  | some (.performed held lhs), .performed owner rhs => if rhs > lhs then .performed owner rhs else .performed held lhs
  | some held, _ => held

def merge (state other : PruningState) : PruningState := ⟨state.markers.mergeWith visit other.markers⟩

theorem visit_some (h v : PruningPhase) : visit (some h) v = prefer PruningPhase.rank h v := by
  cases h <;> cases v <;> simp [visit, prefer, PruningPhase.rank]

theorem marker_merge (n : String) (a b : PruningState) :
    marker n (merge a b) = Option.merge (prefer PruningPhase.rank) (marker n a) (marker n b) := by
  unfold marker
  rw [merge, Table.lookup_mergeWith]
  cases b.markers.lookup n with
  | none => cases a.markers.lookup n <;> rfl
  | some v =>
    cases a.markers.lookup n with
    | none => rfl
    | some h => exact congrArg some (visit_some h v)

def SameMarkers (a b : PruningState) : Prop := ∀ node, a.marker node = b.marker node

/-- Where two markers are of the same phase and round, they name the same owner. -/
def Agrees (a b : PruningState) : Prop :=
  ∀ node, ∀ p ∈ a.marker node, ∀ q ∈ b.marker node, p.rank = q.rank → p.owner = q.owner

/-- Of the markers that some states hold for a node, this one is in the last phase, with the latest round. -/
def Latest (states : List PruningState) (node : String) : PruningPhase → Prop :=
  Grouping.Top PruningPhase.rank (marker node) states

theorem merge_comm_iff_agrees (a b : PruningState) : (a.merge b).SameMarkers (b.merge a) ↔ a.Agrees b := by
  refine forall_congr' fun n => ?_
  rw [marker_merge, marker_merge]
  cases left : a.marker n with
  | none => cases b.marker n <;> simp
  | some p =>
    cases right : b.marker n with
    | none => simp
    | some q =>
      have equal : p.rank = q.rank → (p = q ↔ p.owner = q.owner) := fun rank =>
        ⟨congrArg PruningPhase.owner, PruningPhase.eq_of_rank rank⟩
      simp only [Option.merge_some_some, Option.some.injEq, prefer_comm_iff, Option.mem_def, forall_eq']
      exact forall_congr' equal

theorem merge_assoc_markers (a b c : PruningState) : ((a.merge b).merge c).SameMarkers (a.merge (b.merge c)) := by
  intro n
  simp only [marker_merge]
  cases a.marker n <;> cases b.marker n <;> cases c.marker n <;> try rfl
  exact congrArg some (prefer_assoc _ _ _ _)

theorem merge_self_markers (a : PruningState) : (a.merge a).SameMarkers a := by
  intro n
  rw [marker_merge]
  cases a.marker n with
  | none => rfl
  | some p => exact congrArg some (prefer_self _ p)

/-- Merging is a join at three states exactly if two of them agree; and all ways of merging some states name
the same owners exactly if for every node the latest markers do. -/
theorem pruning_join_iff (a b c : PruningState) (states : List PruningState) :
    ((a.merge b).SameMarkers (b.merge a) ∧ ((a.merge b).merge c).SameMarkers (a.merge (b.merge c)) ∧
        (a.merge a).SameMarkers a ↔ a.Agrees b) ∧
    ((∀ one other : Grouping PruningState, one.Merges states → other.Merges states →
        ∀ node, (one.result merge).owner node = (other.result merge).owner node) ↔
      ∀ node p q, Latest states node p → Latest states node q → p.owner = q.owner) := by
  constructor
  · rw [merge_comm_iff_agrees]
    exact ⟨fun laws => laws.1, fun agrees => ⟨agrees, merge_assoc_markers a b c, merge_self_markers a⟩⟩
  · have byNode := fun node => Grouping.agree_iff (marker_merge node) PruningPhase.owner states
    constructor
    · exact fun agree node => (byNode node).mp fun one other merges merges' => agree one other merges merges' node
    · exact fun eq one other merges merges' node => (byNode node).mpr (eq node) one other merges merges'

/-- Two nodes announce a removal with different owners, and each keeps its own, also after both have
performed it for the same round. -/
theorem pruning_owner_contested :
    let a := new.initializeMarker "dead" "x"
    let b := new.initializeMarker "dead" "y"
    let a' := (a.markPerformed "dead" 7).2
    let b' := (b.markPerformed "dead" 7).2
    (a.merge b).owner "dead" = some "x" ∧ (b.merge a).owner "dead" = some "y" ∧
      (a'.merge b').owner "dead" = some "x" ∧ (b'.merge a').owner "dead" = some "y" ∧
      ¬ (a.merge b).SameMarkers (b.merge a) := by
  refine ⟨by decide, by decide, by decide, by decide, fun eq => ?_⟩
  exact absurd (eq "dead") (by decide)

end PruningState

end Atomr.DistributedData
