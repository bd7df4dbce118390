import Atomr.Library.OrderBy
import Atomr.Library.Table
import Mathlib.Data.Prod.Lex
import Mathlib.Data.String.Basic

/-! The allocation table of the shard coordinator, and the strategies that fill it. -/

namespace Atomr.ClusterSharding

open Library

class ShardAllocationStrategy (Strategy : Type) where
  allocateShard : Strategy → String → Table String Nat → Option String
  rebalance : Strategy → Table String String → Table String Nat → List String

structure LeastShardAllocationStrategy where
  maxSimultaneousRebalance : Nat
  rebalanceThreshold : Nat
  deriving DecidableEq, Repr

instance : Inhabited LeastShardAllocationStrategy := ⟨⟨3, 1⟩⟩

namespace LeastShardAllocationStrategy

/-- The region with the fewest shards; among several the first by name. -/
def allocateShard (_ : LeastShardAllocationStrategy) (_ : String) (regions : Table String Nat) : Option String :=
  let entries := regions.entries.map fun entry => (entry.1, entry.2)
  (orderBy (fun entry => toLex (entry.2, entry.1)) entries).head?.map Prod.fst

/-- Shards of the most loaded regions, the first ones by name. -/
def rebalance (strategy : LeastShardAllocationStrategy) (current : Table String String)
    (regions : Table String Nat) : List String :=
  if regions.entries.length < 2 then []
  else
    let max := regions.values.max?.getD 0
    let min := regions.values.min?.getD 0
    if max - min < strategy.rebalanceThreshold then []
    else
      let maxRegions := (regions.entries.filter fun entry => entry.2 = max).map Sigma.fst
      let out := (current.entries.filter fun entry => entry.2 ∈ orderBy id maxRegions).map Sigma.fst
      (orderBy id out).take strategy.maxSimultaneousRebalance

instance : ShardAllocationStrategy LeastShardAllocationStrategy := ⟨allocateShard, rebalance⟩

end LeastShardAllocationStrategy

structure PinnedAllocationStrategy where
  region : String
  deriving DecidableEq, Repr

instance : ShardAllocationStrategy PinnedAllocationStrategy where
  allocateShard strategy _ _ := some strategy.region
  rebalance _ _ _ := []

/-- Regions without shards have no entry. -/
def regionShardCounts (allocations : Table String String) : Table String Nat :=
  allocations.values.foldl (fun out region => out.upsert region fun held => held.getD 0 + 1) ∅

structure ShardCoordinator where
  allocation : Table String String

namespace ShardCoordinator

def new : ShardCoordinator := ⟨∅⟩

/-- The region of the shard, which is the given one on first mention. -/
def allocate (coordinator : ShardCoordinator) (shardId defaultRegion : String) : String × ShardCoordinator :=
  match coordinator.allocation.lookup shardId with
  | some region => (region, coordinator)
  | none => (defaultRegion, ⟨coordinator.allocation.insert shardId defaultRegion⟩)

def regionFor (coordinator : ShardCoordinator) (shardId : String) : Option String :=
  coordinator.allocation.lookup shardId

section Strategies
variable {Strategy : Type} [ShardAllocationStrategy Strategy]

def allocateWithStrategy (coordinator : ShardCoordinator) (shardId : String) (strategy : Strategy) :
    Option String × ShardCoordinator :=
  match ShardAllocationStrategy.allocateShard strategy shardId (regionShardCounts coordinator.allocation) with
  | none => (none, coordinator)
  | some chosen => (some chosen, ⟨coordinator.allocation.insert shardId chosen⟩)

def rebalanceWithStrategy (coordinator : ShardCoordinator) (strategy : Strategy) : List String :=
  ShardAllocationStrategy.rebalance strategy coordinator.allocation (regionShardCounts coordinator.allocation)

end Strategies

end ShardCoordinator

end Atomr.ClusterSharding
