import Atomr.Library.OrderBy
import Atomr.Library.Table
import Mathlib.Data.Prod.Lex

/-! Sorted sets: a member has one score, and ranges come in the order of the scores.

Members of one score come in their own order.
-/

namespace Atomr.Library

open List

abbrev SortedSet (M S : Type) := Table M S

namespace SortedSet

inductive SetOptions where
  | nx
  | xx
  deriving DecidableEq, Repr

section Members
variable {M S : Type} [LinearOrder M]

def zadd (set : SortedSet M S) (option : SetOptions) (score : S) (member : M) : SortedSet M S :=
  match option with
  | .nx => if member ∈ set then set else set.insert member score
  | .xx => if member ∈ set then set.insert member score else set

def zrem (set : SortedSet M S) (member : M) : SortedSet M S := set.erase member

def zcard (set : SortedSet M S) : Nat := set.entries.length

variable {mem : M} {set : SortedSet M S}

theorem zadd_nx (fresh : mem ∉ set) (score : S) :
    set.zadd .nx score mem = set.insert mem score := if_neg fresh

theorem zcard_insert (fresh : mem ∉ set) (score : S) : zcard (set.insert mem score) = set.zcard + 1 := by
  rw [zcard, AList.entries_insert_of_notMem fresh]
  rfl

end Members

section Ranges
variable {M S : Type} [LinearOrder M] [LinearOrder S]

def inOrder (set : SortedSet M S) : List (M × S) :=
  orderBy (fun entry => toLex (entry.2, entry.1)) (set.entries.map fun entry => (entry.1, entry.2))

def zrangebyscore (set : SortedSet M S) (min max : S) : List M :=
  (set.inOrder.filter fun entry => min ≤ entry.2 && entry.2 ≤ max).map Prod.fst

/-- A negative index counts from the end. -/
def position (length : Nat) (index : Int) : Int := if index < 0 then length + index else index

def zrange (set : SortedSet M S) (start stop : Int) : List (M × S) :=
  (set.inOrder.take (position set.zcard stop + 1).toNat).drop (position set.zcard start).toNat

variable {set : SortedSet M S}

theorem perm_inOrder (set : SortedSet M S) : set.inOrder.Perm (set.entries.map fun e => (e.1, e.2)) :=
  perm_insertionSort _ _

variable {e : M × S}

theorem mem_inOrder : e ∈ set.inOrder ↔ set.lookup e.1 = some e.2 := by
  rw [set.perm_inOrder.mem_iff, ← Option.mem_def, AList.mem_lookup_iff, mem_map]
  constructor
  · rintro ⟨h, mem, rfl⟩
    exact mem
  · intro mem
    exact ⟨_, mem, rfl⟩

theorem length_inOrder (set : SortedSet M S) : set.inOrder.length = set.zcard := by
  rw [set.perm_inOrder.length_eq, length_map, zcard]

theorem le_of_getLast? {last : M × S} (isLast : set.inOrder.getLast? = some last) (mem : e ∈ set.inOrder) :
    e.2 ≤ last.2 := by
  obtain ⟨init, split⟩ := List.getLast?_eq_some_iff.mp isLast
  have sorted : set.inOrder.Pairwise fun first second => toLex (first.2, first.1) ≤ toLex (second.2, second.1) :=
    pairwise_insertionSort _ _
  rw [split] at sorted mem
  rcases mem_append.mp mem with earlier | here
  · have ord := (pairwise_append.mp sorted).2.2 e earlier last mem_cons_self
    rcases Prod.Lex.toLex_le_toLex.mp ord with less | eq
    · exact le_of_lt less
    · exact le_of_eq eq.1
  · rw [mem_singleton.mp here]

theorem zrange_last (set : SortedSet M S) : set.zrange (-1) (-1) = set.inOrder.getLast?.toList := by
  have whole : (position set.zcard (-1) + 1).toNat = set.inOrder.length := by
    rw [length_inOrder, position]
    omega
  have start : (position set.zcard (-1)).toNat = set.inOrder.length - 1 := by
    omega
  rw [zrange, whole, take_length, start]
  rcases set.inOrder.eq_nil_or_concat with empty | ⟨init, last, split⟩
  · rw [empty]
    rfl
  · simp [split]

end Ranges

end SortedSet

end Atomr.Library
