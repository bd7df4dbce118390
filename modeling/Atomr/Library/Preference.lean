import Mathlib.Order.Lattice

/-! Merges that keep the value of the higher rank, and their own side on a tie.

Such a merge is associative and idempotent. It is commutative where equal ranks mean equal values, so the
order of merging shows only in which of the tied values is kept.
-/

namespace Atomr.Library

open List

section Prefer
variable {V L : Type} [LinearOrder L] (rank : V → L)

def prefer (held value : V) : V := if rank held < rank value then value else held

theorem prefer_self (a : V) : prefer rank a a = a := ite_self a

theorem rank_prefer (a b : V) : rank (prefer rank a b) = max (rank a) (rank b) := by
  unfold prefer
  split
  next later => exact (max_eq_right (le_of_lt later)).symm
  next kept => exact (max_eq_left (not_lt.mp kept)).symm

theorem prefer_of_le {a b : V} (below : rank b ≤ rank a) : prefer rank a b = a := if_neg (not_lt.mpr below)

theorem prefer_of_lt {a b : V} (above : rank a < rank b) : prefer rank a b = b := if_pos above

theorem prefer_assoc (a b c : V) : prefer rank (prefer rank a b) c = prefer rank a (prefer rank b c) := by
  rcases le_or_gt (rank b) (rank a) with ba | ba
  · rw [prefer_of_le rank ba]
    rcases le_or_gt (rank c) (rank b) with cb | cb
    · rw [prefer_of_le rank cb, prefer_of_le rank ba, prefer_of_le rank (cb.trans ba)]
    · rw [prefer_of_lt rank cb]
  · rw [prefer_of_lt rank ba]
    rcases le_or_gt (rank c) (rank b) with cb | cb
    · rw [prefer_of_le rank cb, prefer_of_lt rank ba]
    · rw [prefer_of_lt rank cb, prefer_of_lt rank (ba.trans cb)]

theorem prefer_comm_iff (a b : V) : prefer rank a b = prefer rank b a ↔ (rank a = rank b → a = b) := by
  rcases lt_trichotomy (rank a) (rank b) with less | eq | greater
  · rw [prefer_of_lt rank less, prefer_of_le rank (le_of_lt less)]
    exact iff_of_true rfl fun eq => absurd eq (ne_of_lt less)
  · rw [prefer_of_le rank (le_of_eq eq.symm), prefer_of_le rank (le_of_eq eq)]
    exact ⟨fun equal _ => equal, fun equal => equal eq⟩
  · rw [prefer_of_le rank (le_of_lt greater), prefer_of_lt rank greater]
    exact iff_of_true rfl fun eq => absurd eq (ne_of_gt greater)

end Prefer

/-- Values merged in some order and grouping, each as often as it occurs. -/
inductive Grouping (S : Type) where
  | one (value : S)
  | join (into other : Grouping S)

namespace Grouping

variable {S : Type}

def result (merge : S → S → S) : Grouping S → S
  | .one value => value
  | .join into other => merge (into.result merge) (other.result merge)

def values : Grouping S → List S
  | .one value => [value]
  | .join into other => into.values ++ other.values

def Merges (grouping : Grouping S) (values : List S) : Prop := ∀ value, value ∈ grouping.values ↔ value ∈ values

def into (first : S) (rest : List S) : Grouping S := rest.foldl (fun held value => .join held (.one value)) (.one first)

theorem values_foldl (h : Grouping S) (rest : List S) :
    (rest.foldl (fun h v => .join h (.one v)) h).values = h.values ++ rest := by
  induction rest generalizing h with
  | nil => rw [foldl_nil, append_nil]
  | cons v rest ih => rw [foldl_cons, ih, values, values, append_assoc, singleton_append]

theorem into_merges {first : S} {vals : List S} (mem : first ∈ vals) : (into first vals).Merges vals := by
  intro v
  rw [into, values_foldl, Grouping.values, singleton_append, mem_cons]
  exact ⟨fun h => h.elim (fun eq => eq ▸ mem) id, .inr⟩

section Ranked
variable {V L : Type} [LinearOrder L] {rank : V → L} {mg : S → S → S} {read : S → Option V}
  (joins : ∀ a b, read (mg a b) = Option.merge (prefer rank) (read a) (read b))

def Top (rank : V → L) (read : S → Option V) (values : List S) (top : V) : Prop :=
  (∃ value ∈ values, read value = some top) ∧ ∀ value ∈ values, ∀ other ∈ read value, rank other ≤ rank top

variable {others values : List S} {top : V}

theorem Top.congr (eq : ∀ v, v ∈ values ↔ v ∈ others) (isTop : Top rank read values top) :
    Top rank read others top := by
  obtain ⟨⟨v, mem, found⟩, above⟩ := isTop
  exact ⟨⟨v, (eq v).mp mem, found⟩, fun v h => above v ((eq v).mpr h)⟩

theorem Top.append_nothing (isTop : Top rank read values top) (nothing : ∀ v ∈ others, read v = none) :
    Top rank read (values ++ others) top := by
  obtain ⟨⟨v, mem, found⟩, above⟩ := isTop
  refine ⟨⟨v, mem_append_left _ mem, found⟩, forall_mem_append.mpr ⟨above, ?_⟩⟩
  intro v mem other h
  rw [nothing v mem] at h
  cases h

theorem Top.append {p q : V} (isTop : Top rank read values p) (isTop' : Top rank read others q) :
    Top rank read (values ++ others) (prefer rank p q) := by
  obtain ⟨⟨v, mem, found⟩, above⟩ := isTop
  obtain ⟨⟨value', member', found'⟩, above'⟩ := isTop'
  have high := rank_prefer rank p q
  refine ⟨?_, forall_mem_append.mpr ⟨fun v h r read => ?_, fun v h r read => ?_⟩⟩
  · unfold prefer
    split
    · exact ⟨value', mem_append_right _ member', found'⟩
    · exact ⟨v, mem_append_left _ mem, found⟩
  · exact (above v h r read).trans (high ▸ le_max_left _ _)
  · exact (above' v h r read).trans (high ▸ le_max_right _ _)

/-- What may be read after merging some values. -/
def Shows (rank : V → L) (read : S → Option V) (values : List S) : Option V → Prop
  | none => ∀ value ∈ values, read value = none
  | some top => Top rank read values top

theorem Shows.join {left right : Option V} (shows : Shows rank read values left)
    (shows' : Shows rank read others right) :
    Shows rank read (values ++ others) (Option.merge (prefer rank) left right) := by
  cases left with
  | none =>
    cases right with
    | none => exact forall_mem_append.mpr ⟨shows, shows'⟩
    | some q => exact (shows'.append_nothing shows).congr fun v => by simp only [mem_append, or_comm]
  | some p =>
    cases right with
    | none => exact Top.append_nothing shows shows'
    | some q => exact Top.append shows shows'

include joins

theorem shows_result (grouping : Grouping S) : Shows rank read grouping.values (read (grouping.result mg)) := by
  induction grouping with
  | one v =>
    rw [result]
    cases found : read v with
    | none => exact forall_mem_singleton.mpr found
    | some top =>
      refine ⟨⟨v, mem_singleton_self _, found⟩, forall_mem_singleton.mpr fun other h => ?_⟩
      exact le_of_eq (congrArg rank (Option.some.inj (h.symm.trans found)))
  | join into other ih ih' =>
    rw [result, joins]
    exact Shows.join ih ih'

theorem read_into {first : S} (found : read first = some top) {rest : List S}
    (above : ∀ v ∈ rest, ∀ other ∈ read v, rank other ≤ rank top) :
    read ((into first rest).result mg) = some top := by
  have kept : ∀ h : Grouping S, read (h.result mg) = some top →
      read ((rest.foldl (fun h v => .join h (.one v)) h).result mg) = some top := by
    induction rest with
    | nil => exact fun h found => found
    | cons v rest ih =>
      intro h found
      obtain ⟨here, later⟩ := forall_mem_cons.mp above
      refine ih later _ ?_
      rw [result, result, joins, found]
      cases other : read v with
      | none => rfl
      | some q => exact congrArg some (prefer_of_le rank (here q other))
  exact kept (.one first) found

/-- All groupings of some values agree on what is shown of a reading exactly if all values of the highest
rank show the same. -/
theorem agree_iff {O : Type} (view : V → O) (vals : List S) :
    (∀ one other : Grouping S, one.Merges vals → other.Merges vals →
      (read (one.result mg)).map view = (read (other.result mg)).map view) ↔
    ∀ p q, Top rank read vals p → Top rank read vals q → view p = view q := by
  constructor
  · rintro agree p q ⟨⟨a, mem, found⟩, above⟩ ⟨⟨b, member', found'⟩, above'⟩
    have eq := agree _ _ (into_merges mem) (into_merges member')
    rw [read_into joins found above, read_into joins found' above'] at eq
    exact Option.some.inj eq
  · intro eq one other merges merges'
    have shows := shows_result joins one
    have shows' := shows_result joins other
    have ms : ∀ v, v ∈ one.values ↔ v ∈ other.values := fun v =>
      (merges v).trans (merges' v).symm
    cases left : read (one.result mg) with
    | none =>
      cases right : read (other.result mg) with
      | none => rfl
      | some q =>
        rw [left] at shows
        rw [right] at shows'
        obtain ⟨⟨v, mem, found⟩, _⟩ := shows'
        rw [shows v ((ms v).mpr mem)] at found
        cases found
    | some p =>
      rw [left] at shows
      cases right : read (other.result mg) with
      | none =>
        rw [right] at shows'
        obtain ⟨⟨v, mem, found⟩, _⟩ := shows
        rw [shows' v ((ms v).mp mem)] at found
        cases found
      | some q =>
        rw [right] at shows'
        exact congrArg some (eq p q (shows.congr merges) (shows'.congr merges'))

end Ranked

end Grouping

end Atomr.Library
