import Atomr.Library.OrderBy
import Atomr.Library.Recency
import Atomr.Library.Table
import Mathlib.Algebra.Ring.Nat

/-! The bounded cache of the remoting paths.

Every use of an entry stamps it with the next tick, and the entry with the smallest stamp is evicted. The
stamps of a cache are in the order of the uses as long as the ticks do not wrap, so the cache is a list in
the order of recency.
-/

namespace Atomr.Remote

open Library List AList

structure LruCache (K V : Type) where
  capacity : Nat
  positive : 1 ≤ capacity
  map : Table K (V × UInt64)
  tick : UInt64

namespace LruCache

variable {K V : Type} [DecidableEq K] (capacity : Nat)

def new (positive : 1 ≤ capacity) : LruCache K V := ⟨capacity, positive, ∅, 0⟩

def len (cache : LruCache K V) : Nat := cache.map.entries.length

/-- A miss does not count as a use. -/
def get (cache : LruCache K V) (key : K) : Option V × LruCache K V :=
  match cache.map.lookup key with
  | some (value, _) =>
    (some value, { cache with map := cache.map.insert key (value, cache.tick + 1), tick := cache.tick + 1 })
  | none => (none, cache)

/-- The entry with the smallest stamp, the first one of several. -/
def oldest (cache : LruCache K V) : Option (Sigma fun _ : K => V × UInt64) :=
  minBy (compareOn fun entry => entry.2.2) cache.map.entries

def put (cache : LruCache K V) (key : K) (value : V) : Option V × LruCache K V :=
  let cache := { cache with tick := cache.tick + 1 }
  let entry := (value, cache.tick)
  if key ∈ cache.map then (none, { cache with map := cache.map.insert key entry })
  else if cache.capacity ≤ cache.len then
    match cache.oldest with
    | some evict =>
      ((cache.map.lookup evict.1).map Prod.fst, { cache with map := (cache.map.erase evict.1).insert key entry })
    | none => (none, { cache with map := cache.map.insert key entry })
  else (none, { cache with map := cache.map.insert key entry })

def remove (cache : LruCache K V) (key : K) : Option V × LruCache K V :=
  ((cache.map.lookup key).map Prod.fst, { cache with map := cache.map.erase key })

def clear (cache : LruCache K V) : LruCache K V := { cache with map := ∅, tick := 0 }

def peek (cache : LruCache K V) (key : K) : Option V := (cache.map.lookup key).map Prod.fst

def step (cache : LruCache K V) : CacheCall K V → Option V × LruCache K V
  | .get key => cache.get key
  | .put key value => cache.put key value
  | .remove key => cache.remove key
  | .clear => (none, cache.clear)

def after (positive : 1 ≤ capacity) (calls : List (CacheCall K V)) : LruCache K V :=
  calls.foldl (fun cache call => (cache.step call).2) (new capacity positive)

structure Slot (K V : Type) where
  key : K
  value : V
  stamp : UInt64

def Slot.entry (slot : Slot K V) : K × V := (slot.key, slot.value)

structure Ordered (cache : LruCache K V) (slots : List (Slot K V)) : Prop where
  held : ∀ slot : Slot K V, cache.map.lookup slot.key = some (slot.value, slot.stamp) ↔ slot ∈ slots
  increasing : slots.Pairwise fun first second => first.stamp < second.stamp
  used : ∀ slot ∈ slots, slot.stamp ≤ cache.tick
  bounded : slots.length ≤ cache.capacity

variable {cache : LruCache K V} {slots : List (Slot K V)}

theorem ordered_of_empty {cap : Nat} (pos : 1 ≤ cap) : Ordered (⟨cap, pos, ∅, 0⟩ : LruCache K V) [] where
  held slot := by simp
  increasing := .nil
  used slot mem := absurd mem not_mem_nil
  bounded := Nat.zero_le _

namespace Ordered

variable {slot : Slot K V}

theorem eq_of_key (ord : Ordered cache slots) {other : Slot K V} (mem : slot ∈ slots) (member' : other ∈ slots)
    (eq : slot.key = other.key) : slot = other := by
  have found := (ord.held slot).mpr mem
  rw [eq, (ord.held other).mpr member'] at found
  cases slot
  cases other
  simp_all

theorem nodup (ord : Ordered cache slots) : slots.Nodup :=
  ord.increasing.imp fun less eq => absurd (eq ▸ less) (UInt64.lt_irrefl _)

variable {rest : List (Slot K V)}

theorem filter_first (ord : Ordered cache (slot :: rest)) :
    (slot :: rest).filter (fun other => other.key ≠ slot.key) = rest := by
  have ne : ∀ other ∈ rest, other.key ≠ slot.key := by
    intro other mem equal
    have twice := ord.eq_of_key (mem_cons_of_mem _ mem) mem_cons_self equal
    exact (nodup_cons.mp ord.nodup).1 (twice ▸ mem)
  rw [filter_cons_of_neg (by simp), filter_eq_self]
  exact fun other mem => decide_eq_true (ne other mem)

variable (ord : Ordered cache slots)
include ord

theorem perm : (cache.map.entries.map fun e => (⟨e.1, e.2.1, e.2.2⟩ : Slot K V)).Perm slots := by
  have nodup : (cache.map.entries.map fun e => (⟨e.1, e.2.1, e.2.2⟩ : Slot K V)).Nodup := by
    refine List.Nodup.map ?_ cache.map.nodupKeys.nodup
    rintro ⟨k, v, stamp⟩ ⟨key', value', stamp'⟩ eq
    cases eq
    rfl
  refine (perm_ext_iff_of_nodup nodup ord.nodup).mpr fun slot => ?_
  rw [← ord.held, ← Option.mem_def, mem_lookup_iff, mem_map]
  constructor
  · rintro ⟨e, mem, rfl⟩
    exact mem
  · exact fun mem => ⟨_, mem, rfl⟩

theorem len_eq : cache.len = slots.length := by
  rw [← ord.perm.length_eq, length_map, len]

theorem lookup_eq (k : K) :
    cache.map.lookup k = (slots.find? fun slot => slot.key = k).map fun slot => (slot.value, slot.stamp) := by
  cases found : slots.find? fun slot => slot.key = k with
  | some slot =>
    have keyed : slot.key = k := by simpa using List.find?_some found
    rw [← keyed]
    exact (ord.held slot).mpr (mem_of_find?_eq_some found)
  | none =>
    rw [Option.map_none, Option.eq_none_iff_forall_ne_some]
    rintro ⟨v, stamp⟩ h
    have ha := List.find?_eq_none.mp found _ ((ord.held ⟨k, v, stamp⟩).mp h)
    simp at ha

theorem erase (k : K) :
    Ordered { cache with map := cache.map.erase k } (slots.filter fun slot => slot.key ≠ k) where
  held slot := by
    rw [Table.lookup_erase_if, mem_filter, ← ord.held]
    by_cases eq : slot.key = k <;> simp [eq]
  increasing := ord.increasing.filter _
  used slot mem := ord.used slot (mem_of_mem_filter mem)
  bounded := (length_filter_le _ _).trans ord.bounded

theorem use (k : K) (v : V) (room : cache.tick.toNat + 1 < 2 ^ 64)
    (fits : (slots.filter fun slot => slot.key ≠ k).length < cache.capacity) :
    Ordered { cache with map := cache.map.insert k (v, cache.tick + 1), tick := cache.tick + 1 }
      ((slots.filter fun slot => slot.key ≠ k) ++ [⟨k, v, cache.tick + 1⟩]) := by
  have later : ∀ slot ∈ slots, slot.stamp < cache.tick + 1 := by
    intro slot mem
    have pre := UInt64.le_iff_toNat_le.mp (ord.used slot mem)
    have next : (cache.tick + 1).toNat = cache.tick.toNat + 1 := by
      exact Nat.mod_eq_of_lt room
    rw [UInt64.lt_iff_toNat_lt]
    omega
  refine ⟨fun slot => ?_, ?_, fun slot mem => ?_, ?_⟩
  · rw [mem_append, mem_filter, ← ord.held]
    by_cases eq : slot.key = k
    · cases slot
      simp_all [eq_comm]
    · have other : slot ≠ ⟨k, v, cache.tick + 1⟩ := fun equal => eq (congrArg Slot.key equal)
      simp [eq, other]
  · refine pairwise_append.mpr ⟨ord.increasing.filter _, pairwise_singleton _ _, fun slot mem last here => ?_⟩
    rw [mem_singleton.mp here]
    exact later slot (mem_of_mem_filter mem)
  · rcases mem_append.mp mem with old | new
    · exact UInt64.le_of_lt (later slot (mem_of_mem_filter old))
    · rw [mem_singleton.mp new]
      exact UInt64.le_refl _
  · rw [length_append]
    exact fits
omit ord

theorem oldest_eq (ord : Ordered cache (slot :: rest)) :
    cache.oldest = some ⟨slot.key, slot.value, slot.stamp⟩ := by
  have mem : ⟨slot.key, slot.value, slot.stamp⟩ ∈ cache.map.entries :=
    mem_lookup_iff.mp ((ord.held slot).mpr mem_cons_self)
  cases found : cache.oldest with
  | none =>
    rw [minBy_eq_none.mp found] at mem
    cases mem
  | some e =>
    obtain ⟨h, least⟩ := minBy_least found
    have hi := (ord.held ⟨e.1, e.2.1, e.2.2⟩).mp (mem_lookup_iff.mpr h)
    rcases mem_cons.mp hi with eq | later
    · rw [← eq]
    · have below : e.2.2 ≤ slot.stamp := Std.LawfulOrderOrd.isLE_compare _ _ |>.mp (least _ mem)
      exact absurd below (UInt64.not_le.mpr (rel_of_pairwise_cons ord.increasing later))

end Ordered

/-- The cache holds the entries of a list in the order of recency, and has not ticked more than so often. -/
def Represents (ticks : Nat) (cache : LruCache K V) (recency : Recency K V) : Prop :=
  cache.tick.toNat ≤ ticks ∧ ∃ slots, Ordered cache slots ∧ recency = slots.map Slot.entry

theorem without_map (slots : List (Slot K V)) (k : K) :
    Recency.without (slots.map Slot.entry) k = (slots.filter fun slot => slot.key ≠ k).map Slot.entry := by
  rw [Recency.without, filter_map]
  rfl

theorem use_map (slots : List (Slot K V)) (k : K) (v : V) (stamp : UInt64) :
    Recency.use (slots.map Slot.entry) k v =
      List.map Slot.entry ((slots.filter fun slot => slot.key ≠ k) ++ [⟨k, v, stamp⟩]) := by
  rw [Recency.use, without_map, map_append]
  rfl

theorem Ordered.find_eq (ord : Ordered cache slots) (k : K) :
    Recency.find (slots.map Slot.entry) k = cache.peek k := by
  rw [peek, ord.lookup_eq, Recency.find, List.find?_map, Option.map_map, Option.map_map]
  rfl

variable {ticks : Nat} {recency : Recency K V}

theorem Ordered.use_represents (ord : Ordered cache slots) (few : cache.tick.toNat ≤ ticks) (room : ticks + 1 < 2 ^ 64)
    (k : K) (v : V) (fits : (slots.filter fun slot => slot.key ≠ k).length < cache.capacity) :
    Represents (ticks + 1)
      { cache with map := cache.map.insert k (v, cache.tick + 1), tick := cache.tick + 1 }
      (Recency.use (slots.map Slot.entry) k v) := by
  refine ⟨?_, _, ord.use k v (by omega) fits, use_map slots k v _⟩
  exact (Nat.mod_le _ _).trans (Nat.succ_le_succ few)

theorem Ordered.room_of_held (ord : Ordered cache slots) {slot : Slot K V} (mem : slot ∈ slots) :
    (slots.filter fun other => other.key ≠ slot.key).length < cache.capacity := by
  have fewer : (slots.filter fun other => other.key ≠ slot.key).length < slots.length :=
    length_filter_lt_length_iff_exists.mpr ⟨slot, mem, by simp⟩
  exact lt_of_lt_of_le fewer ord.bounded

theorem represents_get (room : ticks + 1 < 2 ^ 64) (rep : Represents ticks cache recency) (k : K) :
    (cache.get k).1 = (recency.get k).1 ∧ Represents (ticks + 1) (cache.get k).2 (recency.get k).2 := by
  obtain ⟨few, slots, ord, rfl⟩ := rep
  have found := ord.find_eq k
  unfold LruCache.get Recency.get
  rw [found, peek]
  cases h : cache.map.lookup k with
  | none => exact ⟨rfl, Nat.le_succ_of_le few, slots, ord, rfl⟩
  | some e =>
    obtain ⟨v, stamp⟩ := e
    have mem := (ord.held ⟨k, v, stamp⟩).mp h
    exact ⟨rfl, ord.use_represents few room k v (ord.room_of_held mem)⟩

theorem represents_remove (rep : Represents ticks cache recency) (k : K) :
    (cache.remove k).1 = (recency.remove k).1 ∧
      Represents (ticks + 1) (cache.remove k).2 (recency.remove k).2 := by
  obtain ⟨few, slots, ord, rfl⟩ := rep
  refine ⟨(ord.find_eq k).symm, Nat.le_succ_of_le few, _, ord.erase k, ?_⟩
  exact without_map slots k

theorem represents_put (room : ticks + 1 < 2 ^ 64) (rep : Represents ticks cache recency) (k : K) (v : V) :
    (cache.put k v).1 = (recency.put cache.capacity k v).1 ∧
      Represents (ticks + 1) (cache.put k v).2 (recency.put cache.capacity k v).2 := by
  obtain ⟨few, slots, ord, rfl⟩ := rep
  have found := ord.find_eq k
  unfold LruCache.put Recency.put
  rw [found, peek]
  cases h : cache.map.lookup k with
  | some e =>
    have here : k ∈ cache.map := lookup_isSome.mp (by rw [h]; rfl)
    have mem := (ord.held ⟨k, e.1, e.2⟩).mp h
    rw [if_pos here]
    exact ⟨rfl, ord.use_represents few room k v (ord.room_of_held mem)⟩
  | none =>
    have ha : k ∉ cache.map := lookup_eq_none.mp h
    rw [if_neg ha]
    have eq : ({ cache with tick := cache.tick + 1 } : LruCache K V).len = slots.length := ord.len_eq
    cases slots with
    | nil =>
      have empty : ¬ cache.capacity ≤ 0 := not_le.mpr cache.positive
      rw [eq, length_nil, if_neg empty]
      exact ⟨rfl, ord.use_represents few room k v cache.positive⟩
    | cons slot rest =>
      rw [eq]
      simp only [length_cons, length_map]
      split
      next full =>
        have evict : ({ cache with tick := cache.tick + 1 } : LruCache K V).oldest = _ := ord.oldest_eq
        have erased := ord.erase slot.key
        rw [ord.filter_first] at erased
        have fits : (rest.filter fun other => other.key ≠ k).length < cache.capacity :=
          lt_of_le_of_lt (length_filter_le _ _) (Nat.lt_of_succ_le ord.bounded)
        rw [evict]
        dsimp only
        rw [(ord.held slot).mpr mem_cons_self]
        exact ⟨rfl, erased.use_represents few room k v fits⟩
      next free =>
        have fits : ((slot :: rest).filter fun other => other.key ≠ k).length < cache.capacity :=
          Nat.lt_of_le_of_lt (length_filter_le _ _) (Nat.lt_of_not_le free)
        exact ⟨rfl, ord.use_represents few room k v fits⟩

theorem represents_step (room : ticks + 1 < 2 ^ 64) (rep : Represents ticks cache recency) (c : CacheCall K V) :
    (cache.step c).1 = (recency.step cache.capacity c).1 ∧
      Represents (ticks + 1) (cache.step c).2 (recency.step cache.capacity c).2 := by
  cases c with
  | get k => exact represents_get room rep k
  | put k v => exact represents_put room rep k v
  | remove k => exact represents_remove rep k
  | clear => exact ⟨rfl, Nat.zero_le _, [], ordered_of_empty cache.positive, rfl⟩

theorem capacity_step (cache : LruCache K V) (c : CacheCall K V) : (cache.step c).2.capacity = cache.capacity := by
  cases c with
  | get k =>
    simp only [step, get]
    split <;> rfl
  | put k v =>
    simp only [step, put]
    split
    · rfl
    · split
      · split <;> rfl
      · rfl
  | remove k => rfl
  | clear => rfl

theorem after_snoc (pos : 1 ≤ capacity) (cs : List (CacheCall K V)) (c : CacheCall K V) :
    after capacity pos (cs ++ [c]) = ((after capacity pos cs).step c).2 := by
  rw [after, foldl_append]
  rfl

theorem represents_after (pos : 1 ≤ capacity) {cs : List (CacheCall K V)} (few : cs.length < 2 ^ 64) :
    (after capacity pos cs).capacity = capacity ∧
      Represents cs.length (after capacity pos cs) (Recency.after capacity cs) := by
  induction cs using List.reverseRecOn with
  | nil => exact ⟨rfl, le_refl _, [], ordered_of_empty pos, rfl⟩
  | append_singleton cs c ih =>
    rw [length_append] at few ⊢
    obtain ⟨eq, rep⟩ := ih (by omega)
    have next := (represents_step few rep c).2
    rw [eq] at next
    rw [after_snoc, Recency.after_snoc]
    exact ⟨(capacity_step _ c).trans eq, next⟩

/-- A cache answers every call as the list in the order of recency does, holds the same entries and no more
than its capacity, and holds for a key the value that was put last. -/
theorem lru_refines_recency (capacity : Nat) (positive : 1 ≤ capacity) (calls : List (CacheCall K V))
    (call : CacheCall K V) (few : calls.length + 1 < 2 ^ 64) :
    let cache := after capacity positive calls
    let recency := Recency.after capacity calls
    (cache.step call).1 = (recency.step capacity call).1 ∧ (∀ key, cache.peek key = recency.find key) ∧
      cache.len = recency.length ∧ cache.len ≤ capacity ∧
      ∀ key value, cache.peek key = some value → Recency.lastPut key calls = some value := by
  intro cache recency
  obtain ⟨eq, represents⟩ := represents_after capacity positive (Nat.lt_of_succ_lt few)
  have answers := (represents_step few represents call).1
  rw [eq] at answers
  obtain ⟨_, slots, ordered, shape⟩ := represents
  have find : ∀ key, cache.peek key = recency.find key := fun key => by rw [← ordered.find_eq key, ← shape]
  refine ⟨answers, find, ?_, ?_, fun key value held => ?_⟩
  · rw [ordered.len_eq, ← length_map Slot.entry, ← shape]
  · rw [ordered.len_eq, ← eq]
    exact ordered.bounded
  · rw [find] at held
    exact Recency.lastPut_of_mem (Recency.mem_of_find held)

/-- Two keys fill the cache, a look at the first makes the second the oldest, and a third takes its place. -/
theorem lru_refines_recency_evicts :
    ((after 2 (by decide) [.put 1 'a', .put 2 'b', .get 1]).step (.put 3 'c')).1 = some 'b' := by
  have eq := (lru_refines_recency 2 (by decide) [.put 1 'a', .put 2 'b', .get 1] (.put 3 'c') (by decide)).1
  exact eq.trans (by decide)

end LruCache

end Atomr.Remote
