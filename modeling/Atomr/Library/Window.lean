import Atomr.Library.History
import Mathlib.Data.List.Induction

/-! Budgets over a sliding window.

Times are in the order in which they happened. Without a length the window reaches back to the
beginning.
-/

namespace Atomr.Library

open List

variable {within : Option Nat} {times : List Nat} {now : Nat}

def recent (within : Option Nat) (now time : Nat) : Bool := within.all fun length => now - time ≤ length

/-- The front is dropped while it is no longer recent. -/
def expire (within : Option Nat) (now : Nat) (times : List Nat) : List Nat :=
  times.dropWhile fun time => !recent within now time

variable {earlier time : Nat}

theorem recent_of_le (le : earlier ≤ now) (still : recent within now time = true) :
    recent within earlier time = true := by
  cases within with
  | none => rfl
  | some length =>
    simp only [recent, Option.all_some, decide_eq_true_eq] at still ⊢
    omega

theorem recent_mono {later : Nat} (le : time ≤ later) (still : recent within now time = true) :
    recent within now later = true := by
  cases within with
  | none => rfl
  | some length =>
    simp only [recent, Option.all_some, decide_eq_true_eq] at still ⊢
    omega

/-- In order of time, what is behind the first recent entry is recent too. -/
theorem expire_eq_filter (ord : times.Pairwise (· ≤ ·)) :
    expire within now times = times.filter (recent within now) := by
  induction times with
  | nil => rfl
  | cons time rest ih =>
    obtain ⟨first, ord⟩ := pairwise_cons.mp ord
    unfold expire at ih ⊢
    rw [dropWhile_cons, filter_cons]
    cases still : recent within now time with
    | false => simpa using ih ord
    | true =>
      have all : rest.filter (recent within now) = rest :=
        filter_eq_self.mpr fun later mem => recent_mono (first later mem) still
      simp [all]

theorem filter_recent_of_le (le : earlier ≤ now) (times : List Nat) :
    (times.filter (recent within earlier)).filter (recent within now) = times.filter (recent within now) := by
  rw [filter_filter]
  refine filter_congr fun time _ => ?_
  cases still : recent within now time with
  | false => rfl
  | true => rw [recent_of_le le still, Bool.and_self]

/-- If at each entry fewer than the limit were recent, no window holds more than the limit. -/
theorem length_window_le {lim : Nat} (ord : times.Pairwise (· ≤ ·))
    (checked : Justified (fun pre time => (pre.filter (recent within time)).length < lim) times) (t : Nat) :
    (times.filter fun time => time ≤ t && recent within t time).length ≤ lim := by
  induction times using List.reverseRecOn with
  | nil => exact Nat.zero_le _
  | append_singleton times last ih =>
    have kept := ih (pairwise_append.mp ord).1 checked.left
    rw [filter_append, filter_cons, filter_nil]
    split
    next hi =>
      -- The window holds the last entry, so that all it holds was recent there.
      rw [Bool.and_eq_true, decide_eq_true_eq] at hi
      have fewer : (times.filter fun time => time ≤ t && recent within t time).length ≤
          (times.filter (recent within last)).length := by
        refine (monotone_filter_right times fun time h => ?_).length_le
        rw [Bool.and_eq_true] at h
        exact recent_of_le hi.1 h.2
      have room := checked times last [] rfl
      rw [length_append, length_singleton]
      omega
    · rwa [append_nil]

end Atomr.Library
