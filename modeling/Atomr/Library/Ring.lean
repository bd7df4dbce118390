import Atomr.Library.KeyList

/-! Points on a ring.

The points are the keys of a map. A key belongs to the first point met going up from it, and around
where none is above it. A ring with more points gives a key to the same point, or to a new one.
-/

namespace Atomr.Library.Ring

open KeyList

variable {K V W : Type} [LinearOrder K]

def successor (ring : List (K × V)) (key : K) : Option (K × V) :=
  (ring.find? fun entry => key ≤ entry.1).or ring.head?

/-- Going up from the key and around, the point is met before the other, or is it. -/
def Met (key point other : K) : Prop :=
  if key ≤ point then key ≤ other → point ≤ other else other < key ∧ point ≤ other

variable {key : K} {ring : List (K × V)} {e : K × V}

theorem Met.antisymm {point other : K} (first : Met key point other) (second : Met key other point) :
    point = other := by
  unfold Met at first second
  split at first <;> split at second
  next low high => exact le_antisymm (first high) (second low)
  next low _ => exact absurd second.1 (not_lt.mpr low)
  next _ high => exact absurd first.1 (not_lt.mpr high)
  · exact le_antisymm first.2 second.2

theorem successor_isSome (k : K) (ne : ring ≠ []) : ∃ e, successor ring k = some e := by
  rw [← Option.isSome_iff_exists, successor]
  simp [ne]

theorem mem_of_successor (found : successor ring key = some e) : e ∈ ring := by
  rcases Option.or_eq_some_iff.mp found with above | ⟨_, first⟩
  · exact List.mem_of_find?_eq_some above
  · exact List.mem_of_head? first

theorem met_of_successor (inOrder : InOrder ring) {other : K × V} (found : successor ring key = some e)
    (mem : other ∈ ring) : Met key e.1 other.1 := by
  unfold Met
  rcases Option.or_eq_some_iff.mp found with above | ⟨none, first⟩
  · obtain ⟨high, low, rest, rfl, below⟩ := List.find?_eq_some_iff_append.mp above
    rw [if_pos (of_decide_eq_true high)]
    intro reaches
    rcases List.mem_append.mp mem with early | late
    · simpa [reaches] using below other early
    · rcases List.mem_cons.mp late with rfl | late
      · exact le_rfl
      · exact ((List.pairwise_cons.mp (List.pairwise_append.mp inOrder).2.1).1 other late).le
  · have low : ∀ e ∈ ring, e.1 < key := by simpa using none
    obtain ⟨rest, rfl⟩ := List.head?_eq_some_iff.mp first
    rw [if_neg (not_le.mpr (low e List.mem_cons_self))]
    refine ⟨low other mem, ?_⟩
    rcases List.mem_cons.mp mem with rfl | late
    · exact le_rfl
    · exact ((List.pairwise_cons.mp inOrder).1 other late).le

/-- Two rings: the second has the points of the first, with an old owner or a new one, and points of new
owners. -/
structure Extends (Old : V → W → Prop) (New : W → Prop) (ring : List (K × V)) (wider : List (K × W)) : Prop where
  inOrder : InOrder ring
  inOrder_wider : InOrder wider
  points : ∀ key, get ring key ≠ none → get wider key ≠ none
  owners : ∀ key owner, get wider key = some owner → New owner ∨ ∃ old, get ring key = some old ∧ Old old owner

section
variable {Old : V → W → Prop} {New : W → Prop} {ring : List (K × V)} {wider : List (K × W)} {ow : W}
  (wide : Extends Old New ring wider)
include wide

theorem Extends.insert_both (k : K) {old : V} (eq : Old old ow) :
    Extends Old New (insert k old ring) (insert k ow wider) where
  inOrder := wide.inOrder.insert k old
  inOrder_wider := wide.inOrder_wider.insert k ow
  points := by
    intro point
    rw [get_insert, get_insert]
    split
    · simp
    · exact wide.points point
  owners := by
    intro point h
    rw [get_insert, get_insert]
    split
    · rintro ⟨⟩
      exact .inr ⟨old, rfl, eq⟩
    · exact wide.owners point h

theorem Extends.insert_new (k : K) (new : New ow) : Extends Old New ring (insert k ow wider) where
  inOrder := wide.inOrder
  inOrder_wider := wide.inOrder_wider.insert k ow
  points := by
    intro point there
    rw [get_insert]
    split
    · simp
    · exact wide.points point there
  owners := by
    intro point h
    rw [get_insert]
    split
    · rintro ⟨⟩
      exact .inl new
    · exact wide.owners point h

theorem Extends.successor {k : K} {e : K × W} (found : successor wider k = some e) :
    New e.2 ∨ ∃ old, Ring.successor ring k = some (e.1, old) ∧ Old old e.2 := by
  have there := wide.inOrder_wider.get_of_mem (mem_of_successor found)
  rcases wide.owners e.1 e.2 there with new | ⟨old, h, eq⟩
  · exact .inl new
  -- the point was there before, and every other point that was is met later
  have mem := mem_of_get h
  obtain ⟨first, first_found⟩ := successor_isSome k (List.ne_nil_of_mem mem)
  have first_held := wide.inOrder.get_of_mem (mem_of_successor first_found)
  obtain ⟨ow, kept⟩ := Option.ne_none_iff_exists'.mp (wide.points first.1 (by simp [first_held]))
  have point : first.1 = e.1 :=
    (met_of_successor wide.inOrder first_found mem).antisymm
      (met_of_successor wide.inOrder_wider found (mem_of_get kept))
  rw [point, h] at first_held
  cases first_held
  exact .inr ⟨first.2, by rw [first_found, ← point], eq⟩

end

end Atomr.Library.Ring
