import Mathlib.Data.List.AList

/-! Finite tables, the shape of the hash maps and tree maps of a program.

A table is an association list with pairwise different keys. The order of the
entries is the iteration order of the container; every law below is stated on
lookups, so nothing depends on it.
-/

namespace Atomr.Library

open List Option AList

abbrev Table (K V : Type) := AList fun _ : K => V

namespace Table

variable {K V : Type} [DecidableEq K] (table : Table K V) (key : K)

/-- Write at `key` a value computed from what is stored there, as an entry API does. -/
def upsert (update : Option V → V) : Table K V := table.insert key (update (table.lookup key))

variable (combine : Option V → V → V)

/-- Visit the entries of `other` in iteration order and fold each into the
entry of the same key. -/
def mergeWith (table other : Table K V) : Table K V :=
  other.entries.foldl (fun acc entry => upsert acc entry.1 fun held => combine held entry.2) table

def adjust (update : V → V) : Table K V :=
  match table.lookup key with
  | none => table
  | some held => table.insert key (update held)

def retain (keep : K → V → Bool) : Table K V :=
  ⟨table.entries.filter fun entry => keep entry.1 entry.2, table.nodupKeys.sublist List.filter_sublist⟩

def mapValues (update : V → V) : Table K V :=
  ⟨table.entries.map (.map id fun _ => update), .map₂ (fun _ => update) table.entries table.nodupKeys⟩

def values : List V := table.entries.map Sigma.snd

theorem lookup_insert_if (other : K) (v : V) :
    (table.insert other v).lookup key = if key = other then some v else table.lookup key := by
  split
  next eq => rw [eq, lookup_insert]
  next ne => exact lookup_insert_ne ne

theorem lookup_erase_if (other : K) :
    (table.erase other).lookup key = if key = other then none else table.lookup key := by
  split
  next eq => rw [eq, lookup_erase]
  next ne => exact lookup_erase_ne ne

theorem lookup_retain (keep : K → V → Bool) (k : K) :
    (table.retain keep).lookup k = (table.lookup k).filter (keep k) := by
  ext v
  simp only [mem_def.symm, mem_lookup_iff, mem_filter_iff]
  simp [retain]

theorem lookup_mapValues (update : V → V) (k : K) : (table.mapValues update).lookup k = (table.lookup k).map update :=
  dlookup_map₂ k

theorem lookup_adjust_if (other : K) (update : V → V) :
    (table.adjust other update).lookup key =
      if key = other then (table.lookup key).map update else table.lookup key := by
  unfold adjust
  split
  next ha =>
    split
    next eq => rw [eq, ha, map_none]
    · rfl
  next h found =>
    rw [lookup_insert_if]
    split
    next eq => rw [eq, found, map_some]
    · rfl

theorem mem_adjust (other : K) (update : V → V) : key ∈ table.adjust other update ↔ key ∈ table := by
  rw [← lookup_isSome, ← lookup_isSome, lookup_adjust_if]
  split
  · rw [isSome_map]
  · rfl

theorem lookup_upsert_if (other : K) (update : Option V → V) :
    (table.upsert other update).lookup key =
      if key = other then some (update (table.lookup other)) else table.lookup key :=
  lookup_insert_if table key other _

-- The keys of the visited entries differ, so an entry is combined with the value
-- the table had before the loop, not with one written by an earlier iteration.
private theorem lookup_foldl_upsert (combine : Option V → V → V) (key : K) :
    ∀ (entries : List (Sigma fun _ : K => V)) (table : Table K V), entries.NodupKeys →
      (entries.foldl (fun acc entry => upsert acc entry.1 fun held => combine held entry.2) table).lookup key =
        match entries.dlookup key with
        | none => table.lookup key
        | some value => some (combine (table.lookup key) value)
  | [], _, _ => rfl
  | ⟨first, value⟩ :: rest, table, distinct => by
    obtain ⟨fresh, distinct⟩ := nodupKeys_cons.mp distinct
    rw [foldl_cons, lookup_foldl_upsert combine key rest _ distinct, lookup_upsert_if]
    by_cases same : key = first
    · subst same
      rw [dlookup_eq_none.mpr fresh, dlookup_cons_eq, if_pos rfl]
    · rw [dlookup_cons_ne rest ⟨first, value⟩ same, if_neg same]

theorem lookup_mergeWith (t other : Table K V) (k : K) :
    (t.mergeWith combine other).lookup k =
      match other.lookup k with
      | none => t.lookup k
      | some v => some (combine (t.lookup k) v) :=
  lookup_foldl_upsert combine k other.entries t other.nodupKeys

theorem lookup_foldl_insert (other : Table K V) (k : K) :
    (other.entries.foldl (fun h e => h.insert e.1 e.2) table).lookup k =
      (other.lookup k).or (table.lookup k) := by
  have merged := lookup_mergeWith (fun _ v => v) table other k
  refine merged.trans ?_
  cases other.lookup k <;> rfl

theorem mem_mergeWith (t other : Table K V) (k : K) :
    k ∈ t.mergeWith combine other ↔ k ∈ t ∨ k ∈ other := by
  rw [← lookup_isSome, ← lookup_isSome, ← lookup_isSome, lookup_mergeWith]
  cases other.lookup k <;> simp

end Table

end Atomr.Library
