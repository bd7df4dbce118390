import Atomr.Library.JoinLaws
import Mathlib.Data.Finset.Lattice.Basic

/-! The merge trait of the replicated data types and the two scalar types.

A type comes with the equality of its replicated state: what a peer can learn
of a value. Pending deltas are local to a node, are skipped on serialization
and are never part of that equality.
-/

namespace Atomr.DistributedData

open Library

class CrdtMerge (S : Type) where
  merge : S → S → S
  state : Setoid S

export CrdtMerge (merge)

def Same {S : Type} [CrdtMerge S] (a b : S) : Prop := (CrdtMerge.state (S := S)).r a b

theorem same_equivalence {S : Type} [CrdtMerge S] : Equivalence (Same (S := S)) := (CrdtMerge.state).iseqv

/-- The contract the trait documents: merge is commutative, associative and idempotent. -/
def Lawful (S : Type) [CrdtMerge S] : Prop := JoinLaws (Same (S := S)) merge

def contentSetoid {S L : Type} (content : S → L) : Setoid S := ⟨fun a b => content a = content b,
  ⟨fun _ => rfl, fun same => same.symm, fun first second => first.trans second⟩⟩

structure Flag where
  enabled : Bool
  deriving DecidableEq, Repr

namespace Flag

def new : Flag := ⟨false⟩

def switchOn (_ : Flag) : Flag := ⟨true⟩

instance : CrdtMerge Flag where
  merge self other := ⟨self.enabled || other.enabled⟩
  state := contentSetoid Flag.enabled

theorem merge_enabled (a b : Flag) : (merge a b).enabled = (a.enabled || b.enabled) := rfl

theorem lawful : Lawful Flag := JoinLaws.of_content Flag.enabled merge_enabled

end Flag

structure LwwRegister (T : Type) where
  value : T
  timestamp : Nat
  node : String
  deriving DecidableEq, Repr

namespace LwwRegister

variable {T : Type}

def new (node : String) (value : T) (timestamp : Nat) : LwwRegister T := ⟨value, timestamp, node⟩

def set (register : LwwRegister T) (value : T) (timestamp : Nat) (node : String) : LwwRegister T :=
  if timestamp > register.timestamp then ⟨value, timestamp, node⟩ else register

/-- `other` is written later: by timestamp, and by node name when the timestamps agree. -/
def Later (other self : LwwRegister T) : Prop :=
  other.timestamp > self.timestamp ∨ (other.timestamp = self.timestamp ∧ other.node > self.node)
deriving Decidable

instance : CrdtMerge (LwwRegister T) where
  merge self other := if Later other self then other else self
  state := contentSetoid id

theorem merge_eq (self other : LwwRegister T) :
    merge self other = if Later other self then other else self := rfl

end LwwRegister

end Atomr.DistributedData
