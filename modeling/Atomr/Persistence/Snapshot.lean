import Atomr.Library.Table

/-! The snapshot store trait, the store in memory and the snapshotter that prunes it. -/

namespace Atomr.Persistence

open Library

structure SnapshotMetadata where
  persistenceId : String
  sequenceNr : Nat
  timestamp : Nat
  deriving DecidableEq, Repr

class SnapshotStore (S : Type) where
  save : S → SnapshotMetadata → (payload : List UInt8) → S
  load : S → (persistenceId : String) → Option (SnapshotMetadata × List UInt8)
  delete : S → (persistenceId : String) → (last : Nat) → S

structure InMemorySnapshotStore where
  snapshots : Table String (List (SnapshotMetadata × List UInt8))

namespace InMemorySnapshotStore

def new : InMemorySnapshotStore := ⟨∅⟩

variable (store : InMemorySnapshotStore) (persistenceId : String)

/-- The snapshots of an id, oldest first. -/
def entries : List (SnapshotMetadata × List UInt8) := (store.snapshots.lookup persistenceId).getD []

def save (metadata : SnapshotMetadata) (payload : List UInt8) : InMemorySnapshotStore :=
  ⟨store.snapshots.upsert metadata.persistenceId fun held => held.getD [] ++ [(metadata, payload)]⟩

def load : Option (SnapshotMetadata × List UInt8) := (store.entries persistenceId).getLast?

def delete (last : Nat) : InMemorySnapshotStore :=
  ⟨store.snapshots.adjust persistenceId fun held => held.filter fun entry => entry.1.sequenceNr > last⟩

instance : SnapshotStore InMemorySnapshotStore := ⟨save, load, delete⟩

theorem entries_save (md : SnapshotMetadata) (p : List UInt8) (pid : String) :
    (store.save md p).entries pid =
      if pid = md.persistenceId then store.entries md.persistenceId ++ [(md, p)]
      else store.entries pid := by
  unfold entries save
  rw [Table.lookup_upsert_if]
  split <;> rfl

theorem entries_delete (pruned : String) (last : Nat) (pid : String) :
    (store.delete pruned last).entries pid =
      if pid = pruned then (store.entries pid).filter fun e => e.1.sequenceNr > last
      else store.entries pid := by
  unfold entries delete
  rw [Table.lookup_adjust_if]
  split
  · cases store.snapshots.lookup pid <;> rfl
  · rfl

end InMemorySnapshotStore

inductive SnapshotPolicy where
  | periodic (every : Nat)
  | manual
  deriving DecidableEq, Repr

def SnapshotPolicy.shouldSnapshot : SnapshotPolicy → (sequenceNr : Nat) → Bool
  | .manual, _ => false
  | .periodic 0, _ => false
  | .periodic every, sequenceNr => sequenceNr > 0 && sequenceNr % every = 0

structure AsyncSnapshotter (S : Type) where
  store : S
  policy : SnapshotPolicy
  keepLast : Nat
  /-- Anything less is refused when the snapshotter is built. -/
  positive : 1 ≤ keepLast

namespace AsyncSnapshotter

variable {S : Type}

def save [SnapshotStore S] (snapshotter : AsyncSnapshotter S) (persistenceId : String) (sequenceNr : Nat)
    (payload : List UInt8) (now : Nat) : AsyncSnapshotter S :=
  let saved := SnapshotStore.save snapshotter.store ⟨persistenceId, sequenceNr, now⟩ payload
  let pruneTo := sequenceNr - snapshotter.keepLast
  if snapshotter.keepLast ≥ 1 ∧ sequenceNr ≥ snapshotter.keepLast ∧ pruneTo > 0 then
    { snapshotter with store := SnapshotStore.delete saved persistenceId pruneTo }
  else { snapshotter with store := saved }

/-- Pruning spares the snapshot just saved, which is then the one that is loaded. -/
theorem load_save (snap : AsyncSnapshotter InMemorySnapshotStore) (saved : String) (seqNr : Nat)
    (p : List UInt8) (t : Nat) (pid : String) :
    (snap.save saved seqNr p t).store.load pid =
      if pid = saved then some (⟨saved, seqNr, t⟩, p)
      else snap.store.load pid := by
  unfold save InMemorySnapshotStore.load
  simp only [SnapshotStore.save, SnapshotStore.delete]
  split
  next pruned =>
    have spared : seqNr > seqNr - snap.keepLast := by omega
    simp only [InMemorySnapshotStore.entries_delete, InMemorySnapshotStore.entries_save]
    split
    · simp [spared]
    · rfl
  · simp only [InMemorySnapshotStore.entries_save]
    split
    · simp
    · rfl

end AsyncSnapshotter

end Atomr.Persistence
