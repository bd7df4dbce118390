import Atomr.Library.Replication
import Mathlib.Order.Lattice.Nat

/-! Numbers that replicas give to some of their updates: each time the one after the highest
they have received. Updates that have not heard of each other may get the same number.
-/

namespace Atomr.Library

open Finset

variable {ι Op : Type} {counts : Op → Bool} {history : List (Update ι Op)} {id : Nat} {u : Update ι Op}

def nextNumber (counts : Op → Bool) (numbers : List Nat) (u : Update ι Op) : Nat :=
  if counts u.op then (u.past.sup fun id => numbers.getD id 0) + 1 else 0

def numbers (counts : Op → Bool) (history : List (Update ι Op)) : List Nat :=
  history.foldl (fun numbers u => numbers ++ [nextNumber counts numbers u]) []

/-- The number of an update, 0 for one that is not counted. -/
def numberOf (counts : Op → Bool) (history : List (Update ι Op)) (id : Nat) : Nat := (numbers counts history).getD id 0

theorem numbers_snoc (counts : Op → Bool) (hist : List (Update ι Op)) (u : Update ι Op) :
    numbers counts (hist ++ [u]) = numbers counts hist ++ [nextNumber counts (numbers counts hist) u] := by
  simp [numbers]

theorem length_numbers (counts : Op → Bool) (hist : List (Update ι Op)) :
    (numbers counts hist).length = hist.length := by
  induction hist using List.reverseRecOn with
  | nil => rfl
  | append_singleton hist u ih => simp [numbers_snoc, ih]

theorem numberOf_snoc (bound : id < history.length) (u : Update ι Op) :
    numberOf counts (history ++ [u]) id = numberOf counts history id := by
  rw [← length_numbers counts] at bound
  simp [numberOf, numbers_snoc, List.getElem?_append_left bound]

theorem numberOf_snoc_length :
    numberOf counts (history ++ [u]) history.length = nextNumber counts (numbers counts history) u := by
  simp [numberOf, numbers_snoc, ← length_numbers counts history]

theorem sup_numberOf_snoc {recv : Finset Nat} (bdd : ∀ id ∈ recv, id < history.length)
    (u : Update ι Op) : recv.sup (numberOf counts (history ++ [u])) = recv.sup (numberOf counts history) :=
  sup_congr rfl fun id mem => numberOf_snoc (bdd id mem) u

def Made (what : Op → Prop) (history : List (Update ι Op)) (id : Nat) : Prop := ∃ u, history[id]? = some u ∧ what u.op

/-- The update does what is asked for, at a replica that had received the given update. -/
def MadeObserving (what : Op → Prop) (history : List (Update ι Op)) (id seen : Nat) : Prop :=
  ∃ u, history[id]? = some u ∧ what u.op ∧ seen ∈ u.past

section Kinds
variable {what w : Op → Prop} {seen : Nat}

theorem unobserved_iff :
    (∀ id, ¬ MadeObserving what history id seen) ↔ ∀ u ∈ history, what u.op → seen ∉ u.past := by
  constructor
  · intro unobserved u mem here observed
    obtain ⟨id, found⟩ := List.mem_iff_getElem?.mp mem
    exact unobserved id ⟨u, found, here, observed⟩
  · rintro unseen id ⟨u, found, here, observed⟩
    exact unseen u (List.mem_of_getElem? found) here observed

theorem made_snoc : Made what (history ++ [u]) id ↔ Made what history id ∨ id = history.length ∧ what u.op := by
  constructor
  · rintro ⟨v, found, does⟩
    rcases getElem?_snoc found with ⟨old, -⟩ | ⟨rfl, rfl⟩
    · exact .inl ⟨v, old, does⟩
    · exact .inr ⟨rfl, does⟩
  · rintro (⟨v, found, does⟩ | ⟨rfl, does⟩)
    · have bound : id < history.length := (List.getElem?_eq_some_iff.mp found).1
      exact ⟨v, (getElem?_snoc_of_lt bound u).trans found, does⟩
    · exact ⟨u, getElem?_snoc_length u, does⟩

theorem made_snoc_of_lt (bound : id < history.length) : Made what (history ++ [u]) id ↔ Made what history id := by
  rw [Made, getElem?_snoc_of_lt bound, Made]

theorem made_snoc_length : Made what (history ++ [u]) history.length ↔ what u.op := by
  simp [Made]

theorem madeObserving_snoc_of_lt (bound : id < history.length) :
    MadeObserving what (history ++ [u]) id seen ↔ MadeObserving what history id seen := by
  rw [MadeObserving, getElem?_snoc_of_lt bound, MadeObserving]

theorem madeObserving_snoc_length :
    MadeObserving what (history ++ [u]) history.length seen ↔ what u.op ∧ seen ∈ u.past := by
  simp [MadeObserving]

end Kinds

def NumbersMade (counts : Op → Bool) (what : Op → Prop) (history : List (Update ι Op)) (received : Finset Nat) :
    Set Nat :=
  {n | ∃ id ∈ received, Made what history id ∧ numberOf counts history id = n}

def NumbersSeen (counts : Op → Bool) (watcher what : Op → Prop) (history : List (Update ι Op))
    (received : Finset Nat) : Set Nat :=
  {n | ∃ r ∈ received, ∃ id, MadeObserving watcher history r id ∧ Made what history id ∧ numberOf counts history id = n}

section Numbers
variable {what watcher : Op → Prop} {recv : Finset Nat} (closed : Closed history recv)

theorem numbersMade_union (other : Finset Nat) :
    NumbersMade counts what history (recv ∪ other) =
      NumbersMade counts what history recv ∪ NumbersMade counts what history other := by
  ext n
  simp only [NumbersMade, mem_union, or_and_right, exists_or, Set.mem_union, Set.mem_ofPred_eq]

theorem numbersSeen_union (other : Finset Nat) :
    NumbersSeen counts watcher what history (recv ∪ other) =
      NumbersSeen counts watcher what history recv ∪ NumbersSeen counts watcher what history other := by
  ext n
  simp only [NumbersSeen, mem_union, or_and_right, exists_or, Set.mem_union, Set.mem_ofPred_eq]

theorem numbersMade_empty : NumbersMade counts what history ∅ = ∅ := by
  simp [NumbersMade]

theorem numbersSeen_empty : NumbersSeen counts watcher what history ∅ = ∅ := by
  simp [NumbersSeen]

include closed

theorem numbersMade_snoc (u : Update ι Op) :
    NumbersMade counts what (history ++ [u]) recv = NumbersMade counts what history recv := by
  ext n
  refine exists_congr fun id => and_congr_right fun mem => ?_
  have bound := closed.bounded id mem
  rw [made_snoc_of_lt bound, numberOf_snoc bound]

theorem numbersSeen_snoc (u : Update ι Op) :
    NumbersSeen counts watcher what (history ++ [u]) recv = NumbersSeen counts watcher what history recv := by
  ext n
  refine exists_congr fun r => and_congr_right fun mem => exists_congr fun id => ?_
  rw [madeObserving_snoc_of_lt (closed.bounded r mem)]
  -- What the watcher had observed was received with it, so it comes before the new update.
  refine and_congr_right fun ⟨v, found, _, obs⟩ => ?_
  have bound := closed.bounded id (closed.past r mem v found obs)
  rw [made_snoc_of_lt bound, numberOf_snoc bound]

theorem numbersMade_insert (u : Update ι Op) :
    NumbersMade counts what (history ++ [u]) (insert history.length recv) =
      {n | what u.op ∧ nextNumber counts (numbers counts history) u = n} ∪
        NumbersMade counts what history recv := by
  rw [← numbersMade_snoc closed u]
  ext n
  simp only [NumbersMade, exists_mem_insert, made_snoc_length, numberOf_snoc_length, Set.mem_union,
    Set.mem_ofPred_eq]

theorem numbersSeen_insert {u : Update ι Op} (past : u.past = recv) :
    NumbersSeen counts watcher what (history ++ [u]) (insert history.length recv) =
      {n | watcher u.op ∧ n ∈ NumbersMade counts what history recv} ∪
        NumbersSeen counts watcher what history recv := by
  rw [← numbersSeen_snoc closed u, ← numbersMade_snoc closed u]
  ext n
  simp only [NumbersSeen, NumbersMade, exists_mem_insert, madeObserving_snoc_length, past, Set.mem_union,
    Set.mem_ofPred_eq, and_assoc, exists_and_left]

theorem numbersSeen_subset :
    NumbersSeen counts watcher what history recv ⊆ NumbersMade counts what history recv := by
  rintro n ⟨r, mem, id, ⟨u, found, _, obs⟩, made, eq⟩
  exact ⟨id, closed.past r mem u found obs, made, eq⟩

omit closed in
theorem numbersMade_le {n : Nat} (member : n ∈ NumbersMade counts what history recv) :
    n ≤ recv.sup (numberOf counts history) := by
  obtain ⟨id, recv, -, rfl⟩ := member
  exact le_sup recv

end Numbers

def IsTop (numbers : Set Nat) (top : Option Nat) : Prop := (∀ n ∈ numbers, ∃ t ∈ top, n ≤ t) ∧ ∀ t ∈ top, t ∈ numbers

namespace IsTop

variable {left right : Set Nat} {a b : Option Nat}

theorem empty : IsTop ∅ none := ⟨fun _ ha => ha.elim, fun _ ha => by cases ha⟩

theorem merge (top : IsTop left a) (top' : IsTop right b) : IsTop (left ∪ right) (a.merge max b) := by
  rcases a with _ | x <;> rcases b with _ | y
  · exact ⟨fun n mem => mem.elim (top.1 n) (top'.1 n), fun _ ha => by cases ha⟩
  · refine ⟨fun n mem => mem.elim (fun here => ?_) (top'.1 n), fun t eq => .inr (top'.2 t eq)⟩
    obtain ⟨_, ha, -⟩ := top.1 n here
    cases ha
  · refine ⟨fun n mem => mem.elim (top.1 n) fun there => ?_, fun t eq => .inl (top.2 t eq)⟩
    obtain ⟨_, ha, -⟩ := top'.1 n there
    cases ha
  · constructor
    · rintro n (here | there)
      · obtain ⟨t, eq, le⟩ := top.1 n here
        cases eq
        exact ⟨_, rfl, le_max_of_le_left le⟩
      · obtain ⟨t, eq, le⟩ := top'.1 n there
        cases eq
        exact ⟨_, rfl, le_max_of_le_right le⟩
    · intro t eq
      cases eq
      rcases Nat.le_total x y with le | le
      · rw [max_eq_right le]
        exact .inr (top'.2 y rfl)
      · rw [max_eq_left le]
        exact .inl (top.2 x rfl)

theorem insert_above {next : Nat} (above : ∀ n ∈ left, n ≤ next) : IsTop (insert next left) (some next) := by
  constructor
  · rintro n (rfl | old)
    · exact ⟨n, rfl, Nat.le_refl n⟩
    · exact ⟨next, rfl, above n old⟩
  · intro t eq
    cases eq
    exact Set.mem_insert _ _

theorem eq_empty (top : IsTop left none) : left = ∅ := by
  refine Set.eq_empty_of_forall_notMem fun n mem => ?_
  obtain ⟨_, ha, -⟩ := top.1 n mem
  cases ha

theorem exists_above_iff (top : IsTop left a) (top' : IsTop right b) :
    (∃ x ∈ a, ∀ y ∈ b, y < x) ↔ ∃ n ∈ left, ∀ m ∈ right, m < n := by
  constructor
  · rintro ⟨x, here, above⟩
    refine ⟨x, top.2 x here, fun m mem => ?_⟩
    obtain ⟨y, there, le⟩ := top'.1 m mem
    exact Nat.lt_of_le_of_lt le (above y there)
  · rintro ⟨n, mem, above⟩
    obtain ⟨x, here, le⟩ := top.1 n mem
    exact ⟨x, here, fun y there => Nat.lt_of_lt_of_le (above y (top'.2 y there)) le⟩

end IsTop

end Atomr.Library
