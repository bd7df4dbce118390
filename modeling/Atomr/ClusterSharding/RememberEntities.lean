import Atomr.Library.PendingWrites
import Atomr.Library.Runs
import Atomr.Library.Table
import Mathlib.Data.Finset.Basic

/-! Remembered entities: a cache in front of a store.

Each call changes or reads the store first and the cache afterwards. Calls may interleave, so
the steps on the cache may come in another order than those on the store. The cache ends up
with the store's set as long as no step overtakes one that disagrees with it on an entity.
-/

namespace Atomr.ClusterSharding

open Library List Option Table

abbrev ShardIds := Table String (Finset String)

def ShardIds.get (ids : ShardIds) (shardId : String) : Finset String := (ids.lookup shardId).getD ∅

structure InMemoryRememberStore where
  inner : ShardIds

namespace InMemoryRememberStore

variable (store : InMemoryRememberStore)

def load (shardId : String) : Finset String := store.inner.get shardId

def add (shardId entityId : String) : InMemoryRememberStore :=
  ⟨store.inner.upsert shardId fun held => insert entityId (held.getD ∅)⟩

def remove (shardId entityId : String) : InMemoryRememberStore :=
  ⟨store.inner.adjust shardId fun held => held.erase entityId⟩

end InMemoryRememberStore

structure RememberedEntities where
  store : InMemoryRememberStore
  cache : ShardIds

inductive RememberCall where
  | warm (shardId : String)
  | recordActive (shardId entityId : String)
  | recordInactive (shardId entityId : String)

inductive CacheStep where
  | refresh (shardId : String) (ids : Finset String)
  | insert (shardId entityId : String)
  | remove (shardId entityId : String)
  deriving DecidableEq

namespace RememberedEntities

def entities (remembered : RememberedEntities) (shardId : String) : Finset String := remembered.cache.get shardId

/-- The step of a call on the store, with the step on the cache that follows. -/
def begin (remembered : RememberedEntities) : RememberCall → RememberedEntities × CacheStep
  | .warm shardId => (remembered, .refresh shardId (remembered.store.load shardId))
  | .recordActive shardId entityId =>
    ({ remembered with store := remembered.store.add shardId entityId }, .insert shardId entityId)
  | .recordInactive shardId entityId =>
    ({ remembered with store := remembered.store.remove shardId entityId }, .remove shardId entityId)

def finish (remembered : RememberedEntities) : CacheStep → RememberedEntities
  | .refresh shardId ids => { remembered with cache := remembered.cache.insert shardId ids }
  | .insert shardId entityId =>
    { remembered with cache := remembered.cache.upsert shardId fun held => insert entityId (held.getD ∅) }
  -- A shard without an entry in the cache is left without one.
  | .remove shardId entityId =>
    { remembered with cache := remembered.cache.adjust shardId fun held => held.erase entityId }

def call (remembered : RememberedEntities) (made : RememberCall) : RememberedEntities :=
  (remembered.begin made).1.finish (remembered.begin made).2

end RememberedEntities

/-- The calls in progress, in the order of their steps on the store. -/
structure RememberUse where
  remembered : RememberedEntities
  pending : List CacheStep

inductive RememberAction where
  | begin (made : RememberCall)
  | finish (index : Nat)

namespace RememberUse

def step (use : RememberUse) : RememberAction → Option RememberUse
  | .begin made =>
    let begun := use.remembered.begin made
    some ⟨begun.1, use.pending ++ [begun.2]⟩
  | .finish index =>
    (use.pending[index]?).map fun last => ⟨use.remembered.finish last, use.pending.eraseIdx index⟩

end RememberUse

namespace CacheStep

def writes (shardId entityId : String) : CacheStep → Option Bool
  | .refresh shard ids => if shard = shardId then some (entityId ∈ ids) else none
  | .insert shard entity => if shard = shardId ∧ entity = entityId then some true else none
  | .remove shard entity => if shard = shardId ∧ entity = entityId then some false else none

def shardId : CacheStep → String
  | .refresh shard _ | .insert shard _ | .remove shard _ => shard

def mentions : CacheStep → Finset String
  | .refresh _ ids => ids
  | .insert _ entity | .remove _ entity => {entity}

/-- One step puts an entity in the cache that the other one takes out. -/
def Disagrees (first second : CacheStep) : Prop :=
  ∃ entityId ∈ first.mentions ∪ second.mentions, ∃ value ∈ first.writes first.shardId entityId,
    ∃ other ∈ second.writes first.shardId entityId, value ≠ other
deriving Decidable

variable {eid sid : String} {step : CacheStep} {v : Bool}

theorem shardId_of_writes (written : step.writes sid eid = some v) : step.shardId = sid := by
  cases step with
  | refresh sh ids => exact (ite_none_right_eq_some.mp written).1
  | insert sh ent => exact (ite_none_right_eq_some.mp written).1.1
  | remove sh ent => exact (ite_none_right_eq_some.mp written).1.1

theorem mem_mentions_of_writes (written : step.writes sid eid = some true) : eid ∈ step.mentions := by
  cases step with
  | refresh sh ids =>
    obtain ⟨_, mem⟩ := ite_none_right_eq_some.mp written
    exact of_decide_eq_true (Option.some.inj mem)
  | insert sh ent =>
    obtain ⟨⟨_, eq⟩, _⟩ := ite_none_right_eq_some.mp written
    exact Finset.mem_singleton.mpr eq.symm
  | remove sh ent =>
    obtain ⟨⟨_, eq⟩, _⟩ := ite_none_right_eq_some.mp written
    exact Finset.mem_singleton.mpr eq.symm

theorem writes_agree {first second : CacheStep} (agree : ¬ first.Disagrees second) {other : Bool}
    (one : first.writes sid eid = some v) (two : second.writes sid eid = some other) :
    v = other := by
  by_contra differ
  obtain rfl := shardId_of_writes one
  refine agree ⟨eid, ?_, v, one, other, two, differ⟩
  -- One of the two values is true, and what is put in the cache is mentioned.
  cases v with
  | true => exact Finset.mem_union_left _ (mem_mentions_of_writes one)
  | false =>
    obtain rfl : other = true := by simpa using differ
    exact Finset.mem_union_right _ (mem_mentions_of_writes two)

end CacheStep

namespace RememberUse

/-- A call finishes when no earlier one in progress disagrees with it. -/
def InStep (use : RememberUse) : RememberAction → Prop
  | .begin _ => True
  | .finish index => ∀ last ∈ use.pending[index]?, ∀ earlier ∈ use.pending.take index, ¬ earlier.Disagrees last

instance (use : RememberUse) (action : RememberAction) : Decidable (use.InStep action) := by
  cases action <;> unfold InStep <;> infer_instance

end RememberUse

namespace ShardIds

def holds (ids : ShardIds) (shardId entityId : String) : Bool := entityId ∈ ids.get shardId

variable (ids : ShardIds) (shardId entityId sh ent : String)

theorem holds_insert (set : Finset String) : holds (ids.insert sh set) shardId entityId =
    ((CacheStep.refresh sh set).writes shardId entityId).getD (ids.holds shardId entityId) := by
  unfold holds get
  rw [lookup_insert_if]
  by_cases eq : shardId = sh
  · simp [CacheStep.writes, eq]
  · simp only [CacheStep.writes, if_neg eq, if_neg (Ne.symm eq), getD_none]

theorem holds_upsert : holds (ids.upsert sh fun h => insert ent (h.getD ∅)) shardId entityId =
    ((CacheStep.insert sh ent).writes shardId entityId).getD (ids.holds shardId entityId) := by
  unfold holds get
  rw [lookup_upsert_if]
  by_cases eq : shardId = sh
  · subst eq
    by_cases it : ent = entityId
    · simp [CacheStep.writes, it]
    · simp [CacheStep.writes, it, Ne.symm it]
  · have other : ¬ (sh = shardId ∧ ent = entityId) := fun both => eq both.1.symm
    simp only [CacheStep.writes, if_neg eq, if_neg other, getD_none]

theorem holds_adjust : holds (ids.adjust sh fun h => h.erase ent) shardId entityId =
    ((CacheStep.remove sh ent).writes shardId entityId).getD (ids.holds shardId entityId) := by
  unfold holds get
  rw [lookup_adjust_if]
  by_cases eq : shardId = sh
  · subst eq
    by_cases it : ent = entityId
    · cases ids.lookup shardId with
      | none => simp [CacheStep.writes, it]
      | some h => simp [CacheStep.writes, it]
    · cases ids.lookup shardId with
      | none => simp [CacheStep.writes, it]
      | some h => simp [CacheStep.writes, it, Ne.symm it]
  · have other : ¬ (sh = shardId ∧ ent = entityId) := fun both => eq both.1.symm
    simp only [CacheStep.writes, if_neg eq, if_neg other, getD_none]

end ShardIds

namespace RememberedEntities

variable (remembered : RememberedEntities) (shardId entityId : String)

theorem holds_cache_finish (last : CacheStep) : (remembered.finish last).cache.holds shardId entityId =
    (last.writes shardId entityId).getD (remembered.cache.holds shardId entityId) := by
  cases last with
  | refresh sh ids => exact ShardIds.holds_insert _ _ _ _ _
  | insert sh ent => exact ShardIds.holds_upsert _ _ _ _ _
  | remove sh ent => exact ShardIds.holds_adjust _ _ _ _ _

theorem holds_store_begin (made : RememberCall) : (remembered.begin made).1.store.inner.holds shardId entityId =
    ((remembered.begin made).2.writes shardId entityId).getD (remembered.store.inner.holds shardId entityId) := by
  cases made with
  | warm sh =>
    by_cases eq : sh = shardId
    · subst eq
      simp only [begin, CacheStep.writes]
      rfl
    · simp only [begin, CacheStep.writes, if_neg eq, getD_none]
  | recordActive sh ent => exact ShardIds.holds_upsert _ _ _ _ _
  | recordInactive sh ent => exact ShardIds.holds_adjust _ _ _ _ _

theorem cache_begin (made : RememberCall) : (remembered.begin made).1.cache = remembered.cache := by
  cases made <;> rfl

theorem store_finish (last : CacheStep) : (remembered.finish last).store = remembered.store := by
  cases last <;> rfl

end RememberedEntities

namespace RememberUse

/-- The cache will hold what the store holds once the calls in progress are finished in order. -/
def Settles (shardId : String) (use : RememberUse) : Prop :=
  ∀ entityId, use.remembered.store.inner.holds shardId entityId =
    settled (use.pending.map (·.writes shardId entityId)) (use.remembered.cache.holds shardId entityId)

theorem settles_step {sid : String} {use next : RememberUse} {act : RememberAction}
    (settles : use.Settles sid) (inStep : use.InStep act) (taken : use.step act = some next) :
    next.Settles sid := by
  intro eid
  cases act with
  | begin made =>
    cases taken
    rw [RememberedEntities.holds_store_begin, settles, map_append, map_singleton, settled_snoc,
      RememberedEntities.cache_begin]
  | finish i =>
    obtain ⟨last, found, rfl⟩ := map_eq_some_iff.mp taken
    obtain ⟨bound, isLast⟩ := List.getElem?_eq_some_iff.mp found
    have split : use.pending = use.pending.take i ++ last :: use.pending.drop (i + 1) := by
      rw [← isLast, getElem_cons_drop, take_append_drop]
    have agree : ∀ v ∈ last.writes sid eid, ∀ other,
        some other ∈ (use.pending.take i).map (·.writes sid eid) → other = v := by
      intro v written other mem
      obtain ⟨earlier, isEarlier, writes⟩ := mem_map.mp mem
      exact CacheStep.writes_agree (inStep last found earlier isEarlier) writes written
    have pre := settles eid
    rw [split, map_append, map_cons, ← settled_perform _ _ _ _ agree] at pre
    rw [RememberedEntities.store_finish, pre, RememberedEntities.holds_cache_finish,
      eraseIdx_eq_take_drop_succ, map_append]

/-- Calls on any shards, started after a completed warm of a shard and none overtaking another that
disagrees with it: with no call on the shard in progress, the cache holds the store's ids. -/
theorem entities_eq_load {remembered : RememberedEntities} {shardId : String} {actions : List RememberAction}
    {use : RememberUse} (run : Run step InStep ⟨remembered.call (.warm shardId), []⟩ actions use)
    (quiet : ∀ last ∈ use.pending, last.shardId ≠ shardId) :
    use.remembered.entities shardId = use.remembered.store.load shardId := by
  have start : Settles shardId ⟨remembered.call (.warm shardId), []⟩ := by
    intro entityId
    refine Eq.symm ((remembered.holds_cache_finish shardId entityId (.refresh shardId _)).trans ?_)
    rw [CacheStep.writes, if_pos rfl]
    rfl
  have settles := run.invariant (Settles shardId) (fun _ _ _ held inStep taken => settles_step held inStep taken) start
  ext entityId
  have untouched : (use.pending.map (·.writes shardId entityId)).reduceOption = [] := by
    refine eq_nil_iff_forall_not_mem.mpr fun val mem => ?_
    obtain ⟨last, pending, writes⟩ := mem_map.mp (reduceOption_mem_iff.mp mem)
    exact quiet last pending (CacheStep.shardId_of_writes writes)
  have eq := settles entityId
  rw [settled, untouched] at eq
  exact decide_eq_decide.mp eq.symm

def orderly : List RememberAction :=
  [.begin (.recordActive "s" "e"), .begin (.warm "s"), .finish 1, .begin (.recordInactive "s" "e"), .finish 0, .finish 0]

theorem entities_eq_load_orderly :
    ∃ use, Run step InStep ⟨(⟨⟨∅⟩, ∅⟩ : RememberedEntities).call (.warm "s"), []⟩ orderly use ∧
      use.remembered.entities "s" = use.remembered.store.load "s" := by
  exact Run.executed rfl fun run => entities_eq_load run fun _ absent => by cases absent

/-- The call that began last finishes first: the entity is out of the store and in the cache. -/
theorem overtaken_entity_remembered :
    ∃ use, Run step (fun _ _ => True) ⟨(⟨⟨∅⟩, ∅⟩ : RememberedEntities).call (.warm "s"), []⟩
        [.begin (.recordActive "s" "e"), .begin (.recordInactive "s" "e"), .finish 1, .finish 0] use ∧
      use.pending = [] ∧ use.remembered.entities "s" = {"e"} ∧ use.remembered.store.load "s" = ∅ :=
  Run.exists_of_foldlM (by decide +kernel)

end RememberUse

end Atomr.ClusterSharding
