import Mathlib.Data.List.Induction
import Mathlib.Data.List.Nodup

/-! Caches that drop the entry that was not used for the longest time.

The entries are a list in the order of their last use, the latest at the end. This is what a cache of a
fixed size is for; how one finds the oldest entry is left to it.
-/

namespace Atomr.Library

open List

inductive CacheCall (K V : Type) where
  | get (key : K)
  | put (key : K) (value : V)
  | remove (key : K)
  | clear

abbrev Recency (K V : Type) := List (K × V)

namespace Recency

variable {K V : Type} [DecidableEq K]

def find (cache : Recency K V) (key : K) : Option V := (cache.find? fun entry => entry.1 = key).map Prod.snd

def without (cache : Recency K V) (key : K) : Recency K V := cache.filter fun entry => entry.1 ≠ key

/-- The key becomes the most recent one, with a value. -/
def use (cache : Recency K V) (key : K) (value : V) : Recency K V := cache.without key ++ [(key, value)]

def get (cache : Recency K V) (key : K) : Option V × Recency K V :=
  match cache.find key with
  | some value => (some value, cache.use key value)
  | none => (none, cache)

/-- A new key that finds no room takes the place of the least recent one, whose value is returned. -/
def put (capacity : Nat) (cache : Recency K V) (key : K) (value : V) : Option V × Recency K V :=
  match cache.find key, cache with
  | none, (_, oldest) :: rest =>
    if capacity ≤ cache.length then (some oldest, use rest key value) else (none, cache.use key value)
  | _, _ => (none, cache.use key value)

def remove (cache : Recency K V) (key : K) : Option V × Recency K V := (cache.find key, cache.without key)

def step (capacity : Nat) (cache : Recency K V) : CacheCall K V → Option V × Recency K V
  | .get key => cache.get key
  | .put key value => cache.put capacity key value
  | .remove key => cache.remove key
  | .clear => (none, [])

def after (capacity : Nat) (calls : List (CacheCall K V)) : Recency K V :=
  calls.foldl (fun cache call => (cache.step capacity call).2) []

theorem after_snoc (cap : Nat) (cs : List (CacheCall K V)) (c : CacheCall K V) :
    after cap (cs ++ [c]) = ((after cap cs).step cap c).2 := by
  rw [after, foldl_append]
  rfl

def lastPut (key : K) (calls : List (CacheCall K V)) : Option V :=
  calls.foldl (fun last call => match call with
    | .put k value => if k = key then some value else last
    | _ => last) none

theorem lastPut_snoc (key : K) (cs : List (CacheCall K V)) (c : CacheCall K V) :
    lastPut key (cs ++ [c]) = match c with
      | .put k v => if k = key then some v else lastPut key cs
      | _ => lastPut key cs := by
  rw [lastPut, foldl_append]
  rfl

variable {ca : Recency K V} {e : K × V} {k : K} {v : V} {cap : Nat}

theorem mem_of_find (found : ca.find k = some v) : (k, v) ∈ ca := by
  obtain ⟨e, here, eq⟩ := Option.map_eq_some_iff.mp found
  have keyed : e.1 = k := by simpa using List.find?_some here
  rw [← keyed, ← eq]
  exact mem_of_find?_eq_some here

theorem mem_use (mem : e ∈ ca.use k v) : e ∈ ca ∧ e.1 ≠ k ∨ e = (k, v) := by
  rcases mem_append.mp mem with old | new
  · exact .inl ⟨mem_of_mem_filter old, of_decide_eq_true (mem_filter.mp old).2⟩
  · exact .inr (mem_singleton.mp new)

theorem mem_step {c : CacheCall K V} (mem : e ∈ (ca.step cap c).2) :
    (e ∈ ca ∧ ∀ v, c ≠ .put e.1 v) ∨ c = .put e.1 e.2 := by
  cases c with
  | get k =>
    refine .inl ⟨?_, fun v eq => by cases eq⟩
    simp only [step, get] at mem
    split at mem
    next v found =>
      rcases mem_use mem with ⟨old, _⟩ | rfl
      · exact old
      · exact mem_of_find found
    · exact mem
  | put k v =>
    have used : ∀ {kept : Recency K V}, (∀ e ∈ kept, e ∈ ca) → e ∈ kept.use k v →
        (e ∈ ca ∧ ∀ other, CacheCall.put k v ≠ .put e.1 other) ∨
          CacheCall.put k v = .put e.1 e.2 := by
      intro kept sub mem
      rcases mem_use mem with ⟨old, ne⟩ | rfl
      · exact .inl ⟨sub _ old, fun other eq => ne (by cases eq; rfl)⟩
      · exact .inr rfl
    simp only [step, put] at mem
    split at mem
    next oldest rest _ =>
      split at mem
      · exact used (fun e h => mem_cons_of_mem _ h) mem
      · exact used (fun _ h => h) mem
    · exact used (fun _ h => h) mem
  | remove k => exact .inl ⟨mem_of_mem_filter mem, fun v eq => by cases eq⟩
  | clear => cases mem

/-- Every entry holds the value that was put last for its key. -/
theorem lastPut_of_mem {cs : List (CacheCall K V)} (mem : e ∈ after cap cs) :
    lastPut e.1 cs = some e.2 := by
  induction cs using List.reverseRecOn with
  | nil => cases mem
  | append_singleton cs c ih =>
    rw [after_snoc] at mem
    rw [lastPut_snoc]
    rcases mem_step mem with ⟨old, other⟩ | rfl
    · have pre := ih old
      cases c with
      | put k v =>
        have ne : k ≠ e.1 := fun eq => other v (eq ▸ rfl)
        rw [← pre]
        exact if_neg ne
      | _ => exact pre
    · exact if_pos rfl

end Recency

end Atomr.Library
