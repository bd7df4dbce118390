import Atomr.DistributedData.Basic
import Mathlib.Algebra.Ring.Int.Defs
import Mathlib.Algebra.Ring.Nat
import Mathlib.Order.Lattice.Nat

/-! Counters with one accumulator for each node: the grow-only counter, the
positive-negative counter and the signed sum.

The `u64` accumulators of the counters wrap on overflow, as unchecked addition
does. The `i128` accumulators of the signed sum hold magnitudes and saturate.
-/

namespace Atomr.DistributedData

open Library Table

structure GCounter where
  state : Table String Nat
  pendingDelta : Table String Nat
  deriving DecidableEq

namespace GCounter

def new : GCounter := ⟨∅, ∅⟩

/-- Unchecked addition into the `u64` accumulator of a node. -/
def addInto (table : Table String Nat) (node : String) (delta : Nat) : Table String Nat :=
  table.upsert node fun held => (held.getD 0 + delta) % 2 ^ 64

variable (counter : GCounter)

def increment (node : String) (delta : Nat) : GCounter where
  state := addInto counter.state node delta
  pendingDelta := addInto counter.pendingDelta node delta

def value : Nat := counter.state.values.sum % 2 ^ 64

def takeDelta : Option (Table String Nat) × GCounter :=
  if counter.pendingDelta.entries.isEmpty then (none, counter)
  else (some counter.pendingDelta, { counter with pendingDelta := ∅ })

def mergeDelta (delta : Table String Nat) : GCounter :=
  { counter with state := counter.state.mergeWith (fun held v => (held.getD 0 + v) % 2 ^ 64) delta }

def content : String → Nat := counter.state.read id

instance : CrdtMerge GCounter where
  merge self other := { self with state := self.state.mergeWith (fun held v => max (held.getD 0) v) other.state }
  state := contentSetoid content

theorem max_combines : CombinesAsJoin (id : Nat → Nat) fun h v => max (h.getD 0) v where
  absent val := Nat.zero_max val
  present _ _ := rfl

theorem merge_content (a b : GCounter) : (merge a b).content = a.content ⊔ b.content :=
  read_mergeWith max_combines a.state b.state

theorem new_content : new.content = ⊥ := rfl

theorem lawful : Lawful GCounter := JoinLaws.of_content content merge_content

end GCounter

structure PNCounter where
  inc : GCounter
  dec : GCounter
  deriving DecidableEq

namespace PNCounter

def new : PNCounter := ⟨GCounter.new, GCounter.new⟩

def increment (counter : PNCounter) (node : String) (delta : Nat) : PNCounter :=
  { counter with inc := counter.inc.increment node delta }

def decrement (counter : PNCounter) (node : String) (delta : Nat) : PNCounter :=
  { counter with dec := counter.dec.increment node delta }

/-- The `as i64` casts reinterpret the bits and the subtraction wraps. -/
def value (counter : PNCounter) : Int :=
  ((counter.inc.value : Int).bmod (2 ^ 64) - (counter.dec.value : Int).bmod (2 ^ 64)).bmod (2 ^ 64)

def content (counter : PNCounter) : (String → Nat) × (String → Nat) := (counter.inc.content, counter.dec.content)

instance : CrdtMerge PNCounter where
  merge self other := ⟨merge self.inc other.inc, merge self.dec other.dec⟩
  state := contentSetoid content

theorem merge_content (a b : PNCounter) : (merge a b).content = a.content ⊔ b.content :=
  Prod.ext (GCounter.merge_content a.inc b.inc) (GCounter.merge_content a.dec b.dec)

theorem new_content : new.content = ⊥ := rfl

theorem lawful : Lawful PNCounter := JoinLaws.of_content content merge_content

end PNCounter

def i128Max : Int := 2 ^ 127 - 1
def i128Min : Int := -2 ^ 127

/-- A non-negative `i128`. The accumulators are private and every writer of one
adds or maximises magnitudes, so the sign bit is never set. -/
abbrev Magnitude := Fin (2 ^ 127)

def Magnitude.zero : Magnitude := ⟨0, by decide⟩

def Magnitude.saturatingAdd (a b : Magnitude) : Magnitude :=
  ⟨min (a.val + b.val) (2 ^ 127 - 1), lt_of_le_of_lt (Nat.min_le_right _ _) (by decide)⟩

/-- The magnitude of an `i128` delta, saturated where negation would overflow. -/
def Magnitude.ofDelta (delta : Int) : Magnitude :=
  ⟨min delta.natAbs (2 ^ 127 - 1), lt_of_le_of_lt (Nat.min_le_right _ _) (by decide)⟩

structure SignedSumDelta where
  pos : Table String Magnitude
  neg : Table String Magnitude
  deriving DecidableEq

structure SignedSum where
  pos : Table String Magnitude
  neg : Table String Magnitude
  pendingPos : Table String Magnitude
  pendingNeg : Table String Magnitude
  deriving DecidableEq

namespace SignedSum

def new : SignedSum := ⟨∅, ∅, ∅, ∅⟩

def addInto (table : Table String Magnitude) (node : String) (amount : Magnitude) : Table String Magnitude :=
  table.upsert node fun held => Magnitude.saturatingAdd (held.getD Magnitude.zero) amount

variable (sum : SignedSum)

def add (node : String) (delta : Int) : SignedSum :=
  -- The sign selects one of two accumulators, and each of them only grows.
  if delta ≥ 0 then
    { sum with
      pos := addInto sum.pos node (Magnitude.ofDelta delta)
      pendingPos := addInto sum.pendingPos node (Magnitude.ofDelta delta) }
  else
    { sum with
      neg := addInto sum.neg node (Magnitude.ofDelta delta)
      pendingNeg := addInto sum.pendingNeg node (Magnitude.ofDelta delta) }

def saturatingSum (table : Table String Magnitude) : Magnitude :=
  table.values.foldl Magnitude.saturatingAdd Magnitude.zero

/-- Saturating `i128` subtraction of the two totals. -/
def value : Int := max i128Min (min i128Max ((saturatingSum sum.pos).val - (saturatingSum sum.neg).val))

def takeDelta : Option SignedSumDelta × SignedSum :=
  if sum.pendingPos.entries.isEmpty && sum.pendingNeg.entries.isEmpty then (none, sum)
  else (some ⟨sum.pendingPos, sum.pendingNeg⟩, { sum with pendingPos := ∅, pendingNeg := ∅ })

def mergeDelta (delta : SignedSumDelta) : SignedSum where
  pos := sum.pos.mergeWith (fun held v => Magnitude.saturatingAdd (held.getD Magnitude.zero) v) delta.pos
  neg := sum.neg.mergeWith (fun held v => Magnitude.saturatingAdd (held.getD Magnitude.zero) v) delta.neg
  pendingPos := sum.pendingPos
  pendingNeg := sum.pendingNeg

def content : (String → Nat) × (String → Nat) := (sum.pos.read Fin.val, sum.neg.read Fin.val)

instance : CrdtMerge SignedSum where
  merge self other := { self with
    pos := self.pos.mergeWith (fun held v => max (held.getD Magnitude.zero) v) other.pos
    neg := self.neg.mergeWith (fun held v => max (held.getD Magnitude.zero) v) other.neg }
  state := contentSetoid content

theorem max_combines : CombinesAsJoin (Fin.val : Magnitude → Nat) fun h v => max (h.getD Magnitude.zero) v where
  absent val := by
    have least : Magnitude.zero ≤ val := Nat.zero_le val.val
    rw [Option.getD_none, max_eq_right least]
  present h val := Fin.coe_max h val

theorem merge_content (a b : SignedSum) : (merge a b).content = a.content ⊔ b.content :=
  Prod.ext (read_mergeWith max_combines a.pos b.pos) (read_mergeWith max_combines a.neg b.neg)

theorem new_content : new.content = ⊥ := rfl

theorem lawful : Lawful SignedSum := JoinLaws.of_content content merge_content

end SignedSum

end Atomr.DistributedData
