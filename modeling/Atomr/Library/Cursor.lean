import Mathlib.Data.List.Nodup

/-! Reading a growing list through a cursor.

The items carry increasing numbers, and a cursor is the number of the last item that was
read: it cuts the list into what was read and what was not. The list grows at its end
and the cursor moves one item at a time.
-/

namespace Atomr.Library

open List

namespace Cursor

variable {Item : Type} (number : Item → Nat)

def Increasing (items : List Item) : Prop := items.Pairwise fun first second => number first < number second

def upTo (cursor : Nat) (items : List Item) : List Item := items.filter fun item => number item ≤ cursor

def beyond (cursor : Nat) (items : List Item) : List Item := items.filter fun item => cursor < number item

variable {number} {xs rest : List Item} {x : Item} {cursor : Nat}

theorem Increasing.eq_of_number_eq {other : Item} (incr : Increasing number xs) (mem : x ∈ xs)
    (member' : other ∈ xs) (eq : number x = number other) : x = other := by
  have nodup : (xs.map number).Nodup := pairwise_map.mpr (incr.imp Nat.ne_of_lt)
  exact inj_on_of_nodup_map nodup mem member' eq

theorem mem_upTo : x ∈ upTo number cursor xs ↔ x ∈ xs ∧ number x ≤ cursor := by
  simp [upTo]

theorem mem_beyond : x ∈ beyond number cursor xs ↔ x ∈ xs ∧ cursor < number x := by
  simp [beyond]

theorem upTo_eq_self (read : ∀ x ∈ xs, number x ≤ cursor) : upTo number cursor xs = xs :=
  filter_eq_self.mpr fun x mem => by simpa using read x mem

theorem beyond_eq_nil (read : ∀ x ∈ xs, number x ≤ cursor) : beyond number cursor xs = [] :=
  filter_eq_nil_iff.mpr fun x mem => by simpa using read x mem

theorem upTo_eq_nil (unread : ∀ x ∈ xs, cursor < number x) : upTo number cursor xs = [] :=
  filter_eq_nil_iff.mpr fun x mem => by simpa using unread x mem

theorem beyond_eq_self (unread : ∀ x ∈ xs, cursor < number x) : beyond number cursor xs = xs :=
  filter_eq_self.mpr fun x mem => by simpa using unread x mem

theorem upTo_append_beyond (incr : Increasing number xs) (cursor : Nat) :
    upTo number cursor xs ++ beyond number cursor xs = xs := by
  induction xs with
  | nil => rfl
  | cons first rest ih =>
    obtain ⟨later, incr⟩ := pairwise_cons.mp incr
    by_cases read : number first ≤ cursor
    · simpa [upTo, beyond, read] using ih incr
    · have all : ∀ x ∈ first :: rest, cursor < number x := by
        intro x mem
        rcases mem_cons.mp mem with rfl | tail
        · omega
        · exact Nat.lt_trans (Nat.lt_of_not_le read) (later x tail)
      rw [upTo_eq_nil all, beyond_eq_self all, nil_append]

/-- Moving the cursor to the next item reads that item and no other. -/
theorem advance (incr : Increasing number xs) (next : beyond number cursor xs = x :: rest) :
    upTo number (number x) xs = upTo number cursor xs ++ [x] ∧
      beyond number (number x) xs = rest := by
  have split := upTo_append_beyond incr cursor
  have unread : cursor < number x := (mem_beyond.mp (next ▸ mem_cons_self)).2
  have pre : ∀ other ∈ upTo number cursor xs, number other ≤ number x :=
    fun other mem => Nat.le_trans (mem_upTo.mp mem).2 (Nat.le_of_lt unread)
  rw [next] at split
  have post : ∀ other ∈ rest, number x < number other := by
    have whole : Increasing number (upTo number cursor xs ++ x :: rest) := split.symm ▸ incr
    exact (pairwise_cons.mp (pairwise_append.mp whole).2.1).1
  have kept : upTo number (number x) (x :: rest) = [x] := by
    have none_later := upTo_eq_nil post
    unfold upTo at none_later ⊢
    simp [none_later]
  have left : beyond number (number x) (x :: rest) = rest := by
    have all_later := beyond_eq_self post
    unfold beyond at all_later ⊢
    simp [all_later]
  constructor
  · calc upTo number (number x) xs
        = upTo number (number x) (upTo number cursor xs ++ x :: rest) := by rw [split]
      _ = upTo number cursor xs ++ [x] := by
        rw [upTo, filter_append]
        exact congrArg₂ (· ++ ·) (upTo_eq_self pre) kept
  · calc beyond number (number x) xs
        = beyond number (number x) (upTo number cursor xs ++ x :: rest) := by rw [split]
      _ = rest := by
        rw [beyond, filter_append]
        exact congrArg₂ (· ++ ·) (beyond_eq_nil pre) left

theorem upTo_snoc (later : cursor < number x) : upTo number cursor (xs ++ [x]) = upTo number cursor xs := by
  have unread : ¬ number x ≤ cursor := by omega
  simp [upTo, unread]

theorem beyond_snoc (later : cursor < number x) :
    beyond number cursor (xs ++ [x]) = beyond number cursor xs ++ [x] := by
  simp [beyond, later]

end Cursor

end Atomr.Library
