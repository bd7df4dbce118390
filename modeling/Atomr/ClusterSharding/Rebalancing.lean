import Atomr.ClusterSharding.Coordinator
import Atomr.Library.Leveling

/-! Rounds of rebalancing: the shards that the strategy gives up are placed again, one after the other. -/

namespace Atomr.ClusterSharding

open Library Leveling Function Option Finset AList

section Tables
variable {allocations : Table String String} {shardId r : String}

def shardsOf (allocations : Table String String) : Finset String := allocations.keys.toFinset

def regionOf (allocations : Table String String) (shardId : String) : String := (allocations.lookup shardId).getD ""

abbrev regionsOf (allocations : Table String String) : Finset String :=
  places (shardsOf allocations) (regionOf allocations)

abbrev shardCount (allocations : Table String String) : String → ℕ :=
  count (shardsOf allocations) (regionOf allocations)

abbrev peakCount (allocations : Table String String) : ℕ := peak (shardsOf allocations) (regionOf allocations)

abbrev heaviestRegions (allocations : Table String String) : Finset String :=
  heaviest (shardsOf allocations) (regionOf allocations)

theorem mem_shardsOf : shardId ∈ shardsOf allocations ↔ shardId ∈ allocations := by
  rw [shardsOf, List.mem_toFinset, mem_keys]

theorem regionOf_of_mem (e : ⟨shardId, r⟩ ∈ allocations.entries) : regionOf allocations shardId = r := by
  rw [regionOf, mem_def.mp (mem_lookup_iff.mpr e), getD_some]

theorem mem_shardsOf_of_mem (e : ⟨shardId, r⟩ ∈ allocations.entries) : shardId ∈ shardsOf allocations :=
  List.mem_toFinset.mpr (List.mem_map_of_mem e)

theorem shardsOf_insert (known : shardId ∈ shardsOf allocations) :
    shardsOf (allocations.insert shardId r) = shardsOf allocations := by
  ext other
  rw [mem_shardsOf, AList.mem_insert, mem_shardsOf]
  constructor
  · rintro (rfl | h)
    · exact mem_shardsOf.mp known
    · exact h
  · exact Or.inr

theorem regionOf_insert :
    regionOf (allocations.insert shardId r) = Function.update (regionOf allocations) shardId r := by
  funext other
  unfold regionOf
  by_cases eq : other = shardId
  · subst eq
    rw [lookup_insert, update_self, getD_some]
  · rw [lookup_insert_ne eq, update_of_ne eq]

theorem lookup_foldl_count (mentions : List String) (counts : Table String Nat) :
    (mentions.foldl (fun out r => out.upsert r fun h => h.getD 0 + 1) counts).lookup r =
      if mentions.count r = 0 then counts.lookup r
      else some ((counts.lookup r).getD 0 + mentions.count r) := by
  induction mentions generalizing counts with
  | nil => rfl
  | cons mention rest ih =>
    rw [List.foldl_cons, ih, Table.lookup_upsert_if]
    by_cases eq : r = mention
    · subst eq
      rw [List.count_cons_self, if_pos rfl, if_neg (Nat.succ_ne_zero _)]
      by_cases ha : rest.count r = 0
      · rw [if_pos ha, ha]
      · rw [if_neg ha, getD_some, add_assoc, add_comm 1]
    · rw [List.count_cons_of_ne (Ne.symm eq), if_neg eq]

theorem count_values : allocations.values.count r = shardCount allocations r := by
  have listed : (shardsOf allocations).filter (fun sid => regionOf allocations sid = r) =
      (allocations.keys.filter fun sid => regionOf allocations sid = r).toFinset := by
    simp [shardsOf]
  unfold shardCount count
  rw [listed, List.toFinset_card_of_nodup (allocations.keys_nodup.filter _), ← List.countP_eq_length_filter]
  unfold Table.values List.count AList.keys List.keys
  rw [List.countP_map, List.countP_map]
  refine List.countP_congr fun e mem => ?_
  simp [regionOf_of_mem mem]

theorem mem_regionsOf : r ∈ regionsOf allocations ↔ shardCount allocations r ≠ 0 := by
  unfold regionsOf shardCount places count
  rw [mem_image, card_ne_zero, filter_nonempty_iff]

variable {h : Nat}

theorem mem_regionShardCounts : ⟨r, h⟩ ∈ (regionShardCounts allocations).entries ↔
    r ∈ regionsOf allocations ∧ shardCount allocations r = h := by
  rw [← mem_lookup_iff, regionShardCounts, lookup_foldl_count, count_values, mem_regionsOf]
  split
  · case isTrue ha => simp [ha]
  · case isFalse hp => simp [hp]

theorem mem_values_regionShardCounts : h ∈ (regionShardCounts allocations).values ↔
    ∃ r ∈ regionsOf allocations, shardCount allocations r = h := by
  unfold Table.values
  rw [List.mem_map]
  constructor
  · rintro ⟨⟨r, _⟩, mem, rfl⟩
    exact ⟨r, mem_regionShardCounts.mp mem⟩
  · rintro ⟨r, here⟩
    exact ⟨⟨r, h⟩, mem_regionShardCounts.mpr here, rfl⟩

theorem allocateShard_emptiest (strat : LeastShardAllocationStrategy) (sid : String)
    (known : (shardsOf allocations).Nonempty) :
    ∃ chosen, strat.allocateShard sid (regionShardCounts allocations) = some chosen ∧
      Emptiest (regionsOf allocations) (shardCount allocations) chosen := by
  have listed (r : String) (h : Nat) :
      (r, h) ∈ ((regionShardCounts allocations).entries.map fun e => (e.1, e.2)) ↔
        ⟨r, h⟩ ∈ (regionShardCounts allocations).entries := by
    simp [List.mem_map]
  unfold LeastShardAllocationStrategy.allocateShard
  cases first : (orderBy (fun e : String × Nat => toLex (e.2, e.1))
      ((regionShardCounts allocations).entries.map fun e => (e.1, e.2))).head? with
  | none =>
    exfalso
    obtain ⟨r, hp⟩ := known.image (regionOf allocations)
    have mem := (listed r _).mpr (mem_regionShardCounts.mpr ⟨hp, rfl⟩)
    rw [← (perm_orderBy (fun e => toLex (e.2, e.1)) _).mem_iff, List.head?_eq_none_iff.mp first] at mem
    exact List.not_mem_nil mem
  | some e =>
    obtain ⟨chosen, h⟩ := e
    obtain ⟨mem, least⟩ := head?_orderBy first
    obtain ⟨hp, rfl⟩ := mem_regionShardCounts.mp ((listed chosen h).mp mem)
    refine ⟨chosen, by dsimp only; rw [first]; rfl, hp, fun other isPlace => ?_⟩
    have post := least _ ((listed other _).mpr (mem_regionShardCounts.mpr ⟨isPlace, rfl⟩))
    exact Prod.Lex.toLex_le_toLex.mp post

theorem max?_regionShardCounts {most : Nat} (isMax : (regionShardCounts allocations).values.max? = some most) :
    most = peakCount allocations := by
  obtain ⟨mem, bound⟩ := List.max?_eq_some_iff.mp isMax
  obtain ⟨r, hp, h⟩ := mem_values_regionShardCounts.mp mem
  apply le_antisymm
  · exact h ▸ le_sup hp
  · refine Finset.sup_le fun other isPlace => ?_
    exact bound _ (mem_values_regionShardCounts.mpr ⟨other, isPlace, rfl⟩)

theorem mem_maxRegions : r ∈ ((regionShardCounts allocations).entries.filter fun e =>
      e.2 = peakCount allocations).map Sigma.fst ↔ r ∈ heaviestRegions allocations := by
  unfold heaviestRegions heaviest
  rw [List.mem_map, mem_full]
  constructor
  · rintro ⟨⟨r, h⟩, mem, rfl⟩
    obtain ⟨listed, most⟩ := List.mem_filter.mp mem
    obtain ⟨hp, rfl⟩ := mem_regionShardCounts.mp listed
    exact ⟨hp, of_decide_eq_true most⟩
  · intro ⟨hp, most⟩
    exact ⟨⟨r, _⟩, List.mem_filter.mpr ⟨mem_regionShardCounts.mpr ⟨hp, rfl⟩, decide_eq_true most⟩, rfl⟩

theorem exists_max_min (several : ¬ (regionShardCounts allocations).entries.length < 2) :
    (regionShardCounts allocations).values.max? = some (peakCount allocations) ∧
    ∃ r ∈ regionsOf allocations,
      (regionShardCounts allocations).values.min? = some (shardCount allocations r) := by
  have occupied : (regionShardCounts allocations).values ≠ [] := by
    intro empty
    have none : (regionShardCounts allocations).entries.length = 0 := by
      rw [← List.length_map Sigma.snd]
      exact congrArg List.length empty
    omega
  obtain ⟨most, isMax⟩ := ne_none_iff_exists'.mp (mt List.max?_eq_none_iff.mp occupied)
  obtain ⟨fewest, isMin⟩ := ne_none_iff_exists'.mp (mt List.min?_eq_none_iff.mp occupied)
  obtain ⟨r, hp, h⟩ := mem_values_regionShardCounts.mp (List.min?_eq_some_iff.mp isMin).1
  exact ⟨max?_regionShardCounts isMax ▸ isMax, r, hp, h ▸ isMin⟩

def fullestShards (allocations : Table String String) : List String :=
  orderBy id ((allocations.entries.filter fun entry => entry.2 ∈ heaviestRegions allocations).map Sigma.fst)

/-- Nothing is given up where no region is far below the fullest, and else shards of the fullest regions are. -/
theorem rebalance_cases (strategy : LeastShardAllocationStrategy) (allocations : Table String String) :
    (strategy.rebalance allocations (regionShardCounts allocations) = [] ∧ ∀ region ∈ regionsOf allocations,
      shardCount allocations region = peakCount allocations ∨
        peakCount allocations - shardCount allocations region < strategy.rebalanceThreshold) ∨
    (∃ region ∈ regionsOf allocations,
      strategy.rebalanceThreshold ≤ peakCount allocations - shardCount allocations region) ∧
    strategy.rebalance allocations (regionShardCounts allocations) =
      (fullestShards allocations).take strategy.maxSimultaneousRebalance := by
  unfold LeastShardAllocationStrategy.rebalance
  by_cases few : (regionShardCounts allocations).entries.length < 2
  · refine .inl ⟨if_pos few, fun region used => .inl ((Finset.le_sup used).antisymm (Finset.sup_le fun other isPlace => ?_))⟩
    have first := mem_regionShardCounts.mpr ⟨used, rfl⟩
    have second := mem_regionShardCounts.mpr ⟨isPlace, rfl⟩
    generalize (regionShardCounts allocations).entries = entries at few first second
    match entries, few with
    | [entry], _ =>
      have alone := (List.mem_singleton.mp second).trans (List.mem_singleton.mp first).symm
      exact (congrArg Sigma.snd alone).le
  · obtain ⟨isMax, least, isPlace, isMin⟩ := exists_max_min few
    rw [if_neg few, isMax, isMin, getD_some, getD_some]
    by_cases close : peakCount allocations - shardCount allocations least < strategy.rebalanceThreshold
    · refine .inl ⟨if_pos close, fun region used => .inr (lt_of_le_of_lt (Nat.sub_le_sub_left ?_ _) close)⟩
      exact (List.min?_eq_some_iff.mp isMin).2 _ (mem_values_regionShardCounts.mpr ⟨region, used, rfl⟩)
    · refine .inr ⟨⟨least, isPlace, not_lt.mp close⟩, ?_⟩
      rw [if_neg close]
      simp only [fullestShards, (perm_orderBy id _).mem_iff, mem_maxRegions]

variable {strategy : LeastShardAllocationStrategy}

/-- Where nothing is given up, all regions in use have the same number of shards, if a difference of one is too much. -/
theorem even_of_settled (strict : strategy.rebalanceThreshold ≤ 1) (moving : 1 ≤ strategy.maxSimultaneousRebalance)
    (settled : strategy.rebalance allocations (regionShardCounts allocations) = []) {region : String}
    (used : region ∈ regionsOf allocations) : shardCount allocations region = peakCount allocations := by
  have bound : shardCount allocations region ≤ peakCount allocations := le_sup used
  rcases rebalance_cases strategy allocations with ⟨-, close⟩ | ⟨-, list⟩
  · have := close region used
    omega
  · rw [settled, eq_comm, List.take_eq_nil_iff] at list
    obtain ⟨fullest, isPlace, most⟩ := exists_mem_eq_sup _ ⟨region, used⟩ (shardCount allocations)
    obtain ⟨shardId, listed, here⟩ := mem_image.mp isPlace
    have entry : ⟨shardId, fullest⟩ ∈ allocations.entries := by
      obtain ⟨held, found⟩ := lookup_isSome.mpr (mem_shardsOf.mp listed) |> isSome_iff_exists.mp
      rw [regionOf, found, getD_some] at here
      exact mem_lookup_iff.mp (here ▸ found)
    have given : shardId ∈ fullestShards allocations :=
      (perm_orderBy id _).mem_iff.mpr (List.mem_map_of_mem
        (List.mem_filter.mpr ⟨entry, decide_eq_true (mem_full.mpr ⟨isPlace, most.symm⟩)⟩))
    rcases list with none | empty
    · omega
    · rw [empty] at given
      cases given

variable (moves : strategy.rebalance allocations (regionShardCounts allocations) ≠ [])
include moves

theorem rebalance_of_moves :
    (∃ region ∈ regionsOf allocations,
      strategy.rebalanceThreshold ≤ peakCount allocations - shardCount allocations region) ∧
    strategy.rebalance allocations (regionShardCounts allocations) =
      (fullestShards allocations).take strategy.maxSimultaneousRebalance :=
  (rebalance_cases strategy allocations).resolve_left fun settled => moves settled.1

theorem rebalance_nodup : (strategy.rebalance allocations (regionShardCounts allocations)).Nodup := by
  rw [(rebalance_of_moves moves).2]
  have nodup : ((allocations.entries.filter fun e =>
      e.2 ∈ heaviestRegions allocations).map Sigma.fst).Nodup :=
    allocations.keys_nodup.sublist (List.filter_sublist.map _)
  exact ((perm_orderBy id _).nodup_iff.mpr nodup).sublist (List.take_sublist _ _)

theorem rebalance_from_heaviest (given : shardId ∈ strategy.rebalance allocations (regionShardCounts allocations)) :
    shardId ∈ shardsOf allocations ∧ regionOf allocations shardId ∈ heaviestRegions allocations := by
  rw [(rebalance_of_moves moves).2] at given
  obtain ⟨⟨shardId, r⟩, mem, rfl⟩ := List.mem_map.mp ((perm_orderBy id _).mem_iff.mp (List.mem_of_mem_take given))
  obtain ⟨e, heavy⟩ := List.mem_filter.mp mem
  rw [regionOf_of_mem e]
  exact ⟨mem_shardsOf_of_mem e, of_decide_eq_true heavy⟩

end Tables

namespace ShardCoordinator

section Rounds
variable {strategy : LeastShardAllocationStrategy}

/-- Each shard that the strategy gives up is allocated again, in the order of the list. -/
def round (strategy : LeastShardAllocationStrategy) (coordinator : ShardCoordinator) : ShardCoordinator :=
  (coordinator.rebalanceWithStrategy strategy).foldl
    (fun coordinator shardId => (coordinator.allocateWithStrategy shardId strategy).2) coordinator

theorem foldl_allocate (strat : LeastShardAllocationStrategy) (list : List String) (coord : ShardCoordinator)
    (known : ∀ sid ∈ list, sid ∈ shardsOf coord.allocation) :
    let final := list.foldl (fun coord sid => (coord.allocateWithStrategy sid strat).2) coord
    shardsOf final.allocation = shardsOf coord.allocation ∧
      Relocated (shardsOf coord.allocation) (regionOf coord.allocation) list
        (regionOf final.allocation) := by
  induction list generalizing coord with
  | nil => exact ⟨rfl, .nil _⟩
  | cons sid rest ih =>
    obtain ⟨here, later⟩ := List.forall_mem_cons.mp known
    obtain ⟨chosen, allocated, emptiest⟩ := allocateShard_emptiest strat sid ⟨sid, here⟩
    have moved : (coord.allocateWithStrategy sid strat).2 = ⟨coord.allocation.insert sid chosen⟩ := by
      unfold allocateWithStrategy
      rw [show ShardAllocationStrategy.allocateShard strat sid _ = _ from allocated]
    have kept : shardsOf (coord.allocation.insert sid chosen) = shardsOf coord.allocation := shardsOf_insert here
    obtain ⟨eq, tail⟩ := ih ⟨coord.allocation.insert sid chosen⟩ (kept ▸ later)
    rw [List.foldl_cons, moved]
    rw [kept, regionOf_insert] at tail
    exact ⟨eq.trans kept, .cons emptiest tail⟩

variable {coordinator : ShardCoordinator}

theorem round_relocates (strategy : LeastShardAllocationStrategy) (coordinator : ShardCoordinator) :
    shardsOf (round strategy coordinator).allocation = shardsOf coordinator.allocation ∧
      Relocated (shardsOf coordinator.allocation) (regionOf coordinator.allocation)
        (coordinator.rebalanceWithStrategy strategy) (regionOf (round strategy coordinator).allocation) := by
  refine foldl_allocate strategy _ coordinator fun shardId given => ?_
  exact (rebalance_from_heaviest (List.ne_nil_of_mem given) given).1

theorem shardsOf_rounds (strategy : LeastShardAllocationStrategy) (rounds : ℕ) :
    shardsOf ((round strategy)^[rounds] coordinator).allocation = shardsOf coordinator.allocation := by
  induction rounds generalizing coordinator with
  | zero => rfl
  | succ rounds ih => exact ih.trans (round_relocates strategy coordinator).1

/-- A round makes the table more even where a region has two shards less than the fullest. -/
theorem round_unevenness_lt (moves : coordinator.rebalanceWithStrategy strategy ≠ [])
    (uneven : ∃ region ∈ regionsOf coordinator.allocation,
      shardCount coordinator.allocation region + 2 ≤ peakCount coordinator.allocation) :
    unevenness (shardsOf (round strategy coordinator).allocation) (regionOf (round strategy coordinator).allocation) <
      unevenness (shardsOf coordinator.allocation) (regionOf coordinator.allocation) := by
  obtain ⟨same, relocated⟩ := round_relocates strategy coordinator
  rw [same]
  exact relocated.unevenness_lt moves (rebalance_nodup moves) (fun _ given => rebalance_from_heaviest moves given) uneven

theorem never_settles (cycle : List ShardCoordinator)
    (closed : ∀ coordinator ∈ cycle, coordinator.rebalanceWithStrategy strategy ≠ [] ∧
      round strategy coordinator ∈ cycle) (rounds : ℕ) (mem : coordinator ∈ cycle) :
    ((round strategy)^[rounds] coordinator).rebalanceWithStrategy strategy ≠ [] := by
  induction rounds generalizing coordinator with
  | zero => exact (closed coordinator mem).1
  | succ rounds ih => exact ih (closed coordinator mem).2

instance : DecidableEq ShardCoordinator := fun first second =>
  decidable_of_iff (first.allocation.entries = second.allocation.entries)
    ⟨fun same => congrArg mk (AList.ext same), fun same => congrArg (AList.entries ∘ allocation) same⟩

def allocated (pairs : List (String × String)) : ShardCoordinator :=
  pairs.foldl (fun coordinator pair => (coordinator.allocate pair.1 pair.2).2) new

def lopsided : ShardCoordinator := allocated [("s2", "b"), ("s1", "a"), ("s0", "a")]

/-- The regions in use divide the shards evenly, from some round on. -/
def Divides (strategy : LeastShardAllocationStrategy) (coordinator : ShardCoordinator) : Prop :=
  ∃ start, ∀ rounds ≥ start,
    (regionsOf ((round strategy)^[rounds] coordinator).allocation).card ∣ (shardsOf coordinator.allocation).card

theorem exists_lacking_of_moves (positive : 1 ≤ strategy.rebalanceThreshold)
    (moves : coordinator.rebalanceWithStrategy strategy ≠ [])
    (even : 2 ≤ strategy.rebalanceThreshold ∨
      (regionsOf coordinator.allocation).card ∣ (shardsOf coordinator.allocation).card) :
    ∃ region ∈ regionsOf coordinator.allocation,
      shardCount coordinator.allocation region + 2 ≤ peakCount coordinator.allocation := by
  obtain ⟨region, used, far⟩ := (rebalance_of_moves moves).1
  rcases even with tolerant | divides
  · exact ⟨region, used, by omega⟩
  · have below : shardCount coordinator.allocation region < peakCount coordinator.allocation := by omega
    exact exists_lacking_two divides ⟨region, used, below⟩

theorem ends_of_divides (positive : 1 ≤ strategy.rebalanceThreshold)
    (condition : 2 ≤ strategy.rebalanceThreshold ∨ Divides strategy coordinator) :
    ∃ rounds, ((round strategy)^[rounds] coordinator).rebalanceWithStrategy strategy = [] := by
  obtain ⟨start, even⟩ : ∃ start, ∀ rounds ≥ start, 2 ≤ strategy.rebalanceThreshold ∨
      (regionsOf ((round strategy)^[rounds] coordinator).allocation).card ∣
        (shardsOf ((round strategy)^[rounds] coordinator).allocation).card := by
    rcases condition with tolerant | ⟨start, divides⟩
    · exact ⟨0, fun _ _ => .inl tolerant⟩
    · refine ⟨start, fun rounds late => .inr ?_⟩
      rw [shardsOf_rounds]
      exact divides rounds late
  by_contra endless
  push Not at endless
  obtain ⟨later, stays⟩ := WellFounded.not_rel_apply_succ (r := (· < ·)) fun later =>
    unevenness (shardsOf ((round strategy)^[start + later] coordinator).allocation)
      (regionOf ((round strategy)^[start + later] coordinator).allocation)
  refine stays ?_
  rw [← add_assoc, iterate_succ_apply']
  have moves := endless (start + later)
  exact round_unevenness_lt moves (exists_lacking_of_moves positive moves (even _ (Nat.le_add_right _ _)))

theorem dvd_of_settled (strict : strategy.rebalanceThreshold ≤ 1) (moving : 1 ≤ strategy.maxSimultaneousRebalance)
    (settled : coordinator.rebalanceWithStrategy strategy = []) :
    (regionsOf coordinator.allocation).card ∣ (shardsOf coordinator.allocation).card := by
  rw [← sum_count (shardsOf coordinator.allocation) (regionOf coordinator.allocation),
    sum_const_nat fun region used => even_of_settled strict moving settled used]
  exact dvd_mul_right _ _

theorem divides_of_ends (strict : strategy.rebalanceThreshold ≤ 1) (moving : 1 ≤ strategy.maxSimultaneousRebalance)
    {rounds : ℕ} (settled : ((round strategy)^[rounds] coordinator).rebalanceWithStrategy strategy = []) :
    Divides strategy coordinator := by
  refine ⟨rounds, fun later late => ?_⟩
  obtain ⟨more, rfl⟩ := Nat.exists_eq_add_of_le' late
  have fixed : round strategy ((round strategy)^[rounds] coordinator) = (round strategy)^[rounds] coordinator := by
    rw [round, settled, List.foldl_nil]
  rw [iterate_add_apply, iterate_fixed fixed, ← shardsOf_rounds strategy rounds]
  exact dvd_of_settled strict moving settled

theorem regionsOf_round (few : strategy.maxSimultaneousRebalance * (regionsOf coordinator.allocation).card <
      (shardsOf coordinator.allocation).card) :
    regionsOf (round strategy coordinator).allocation = regionsOf coordinator.allocation := by
  by_cases moves : coordinator.rebalanceWithStrategy strategy = []
  · rw [round, moves, List.foldl_nil]
  obtain ⟨same, relocated⟩ := round_relocates strategy coordinator
  unfold regionsOf at few ⊢
  rw [same]
  refine relocated.places_kept ?_ fun _ given => (rebalance_from_heaviest moves given).2
  have bound := few.trans_le (card_le_peak (shardsOf coordinator.allocation) (regionOf coordinator.allocation))
  rw [mul_comm] at bound
  refine lt_of_le_of_lt ?_ (Nat.lt_of_mul_lt_mul_left bound)
  exact (congrArg List.length (rebalance_of_moves moves).2).le.trans (List.length_take_le _ _)

theorem regionsOf_rounds (few : strategy.maxSimultaneousRebalance * (regionsOf coordinator.allocation).card <
      (shardsOf coordinator.allocation).card) (rounds : ℕ) :
    regionsOf ((round strategy)^[rounds] coordinator).allocation = regionsOf coordinator.allocation := by
  induction rounds generalizing coordinator with
  | zero => rfl
  | succ rounds ih =>
    have kept := regionsOf_round few
    rw [← kept, ← (round_relocates strategy coordinator).1] at few
    exact (ih few).trans kept

/-- The rounds come to an end exactly when the strategy leaves a difference of one alone or the regions in use come to
divide the shards evenly. If a round gives up fewer shards than a region has on average, then all regions stay in use. -/
theorem rebalancing_ends_iff (strategy : LeastShardAllocationStrategy) (positive : 1 ≤ strategy.rebalanceThreshold)
    (moving : 1 ≤ strategy.maxSimultaneousRebalance) (coordinator : ShardCoordinator) :
    ((∃ rounds, ((round strategy)^[rounds] coordinator).rebalanceWithStrategy strategy = []) ↔
      2 ≤ strategy.rebalanceThreshold ∨ Divides strategy coordinator) ∧
    (strategy.maxSimultaneousRebalance * (regionsOf coordinator.allocation).card < (shardsOf coordinator.allocation).card →
      (Divides strategy coordinator ↔
        (regionsOf coordinator.allocation).card ∣ (shardsOf coordinator.allocation).card)) := by
  refine ⟨⟨fun ⟨rounds, settled⟩ => ?_, ends_of_divides positive⟩, fun few => ?_⟩
  · rcases lt_or_ge 1 strategy.rebalanceThreshold with tolerant | strict
    · exact .inl tolerant
    · exact .inr (divides_of_ends strict moving settled)
  · have kept := regionsOf_rounds few
    exact ⟨fun ⟨start, divides⟩ => kept start ▸ divides start le_rfl, fun divides => ⟨0, fun rounds _ => (kept rounds).symm ▸ divides⟩⟩

def sixAndTwo : ShardCoordinator := allocated [("s0", "a"), ("s1", "a"), ("s2", "a"), ("s3", "a"), ("s4", "a"), ("s5", "a"),
  ("s6", "b"), ("s7", "b")]

theorem rebalancing_ends_for_six_and_two :
    sixAndTwo.rebalanceWithStrategy (default : LeastShardAllocationStrategy) = ["s0", "s1", "s2"] ∧
    ∃ rounds, ((round default)^[rounds] sixAndTwo).rebalanceWithStrategy (default : LeastShardAllocationStrategy) = [] := by
  obtain ⟨ends, kept⟩ := rebalancing_ends_iff default (by decide) (by decide) sixAndTwo
  exact ⟨by decide +kernel, ends.mpr (.inr ((kept (by decide +kernel)).mpr (by decide +kernel)))⟩

/-- The strategy that is the default goes on forever on three shards and two regions: a round takes the first shard to
the other region and puts back the other one that it took. -/
theorem default_never_settles : ¬ ∃ rounds, ((round default)^[rounds] lopsided).rebalanceWithStrategy
    (default : LeastShardAllocationStrategy) = [] := by
  intro ⟨rounds, settled⟩
  -- The order of the entries changes in the first round and comes back every second one.
  let cycle : List ShardCoordinator := [lopsided, allocated [("s2", "b"), ("s0", "b"), ("s1", "a")],
    allocated [("s1", "a"), ("s0", "a"), ("s2", "b")]]
  have closed : ∀ coordinator ∈ cycle, coordinator.rebalanceWithStrategy (default : LeastShardAllocationStrategy) ≠ [] ∧
      round default coordinator ∈ cycle := by
    decide +kernel
  exact never_settles cycle closed rounds List.mem_cons_self settled

end Rounds

end ShardCoordinator

end Atomr.ClusterSharding
