import Atomr.Library.Unfold
import Mathlib.Data.List.Range

/-! A source that is opened again after it has ended.

The factory gives its sources by the number of the call. Of the restarts only their number is kept, not how long they
are put off.
-/

namespace Atomr.Streams.RestartSource

open Library List

structure RestartState (T : Type) where
  attempts : Nat
  current : Option (List T)

variable {T : Type} (maxRestarts : Option Nat) (factory : Nat → List T)

def nextStream (attempts : Nat) : Option (List T) :=
  if ∃ limit ∈ maxRestarts, attempts ≥ limit then none else some (factory attempts)

/-- What follows a stream that has ended: the first element of the next one, and the end where that one has none. -/
def restart (attempts : Nat) : Option T × RestartState T :=
  match nextStream maxRestarts factory attempts with
  | some (v :: rest) => (some v, ⟨attempts + 1, some rest⟩)
  | some [] => (none, ⟨attempts + 1, none⟩)
  | none => (none, ⟨attempts, none⟩)

def pull (attempts : Nat) : List T → Option T × RestartState T
  | v :: rest => (some v, ⟨attempts, some rest⟩)
  | [] => restart maxRestarts factory attempts

def withBackoff (state : RestartState T) : Option T × RestartState T :=
  match state.current with
  | some stream => pull maxRestarts factory state.attempts stream
  | none =>
    -- The subscription is opened at the first demand.
    match nextStream maxRestarts factory state.attempts with
    | some stream => pull maxRestarts factory (state.attempts + 1) stream
    | none => (none, state)

variable {maxRestarts} {factory} {n m attempts : Nat} {out rest : List T} {last : RestartState T}

theorem nextStream_eq (room : m < n) : nextStream (some n) factory m = some (factory m) := by
  simp [nextStream, room]

theorem unfolds_append (tail : Unfolds (withBackoff maxRestarts factory) ⟨attempts, some []⟩ out last) :
    Unfolds (withBackoff maxRestarts factory) ⟨attempts, some rest⟩ (rest ++ out) last := by
  induction rest with
  | nil => exact tail
  | cons v rest ih => exact .emits rfl ih

theorem withBackoff_restart (room : m < n) (filled : factory m ≠ []) :
    withBackoff (some n) factory ⟨m, some []⟩ = withBackoff (some n) factory ⟨m + 1, some (factory m)⟩ := by
  obtain ⟨v, rest, opened⟩ := exists_cons_of_ne_nil filled
  simp [withBackoff, pull, restart, nextStream_eq room, opened]

/-- The sources before the first that a restart finds empty come one after the other. -/
theorem unfolds_range (pos : 1 ≤ m) (room : m ≤ n) (filled : ∀ i, 1 ≤ i → i < m → factory i ≠ [])
    (tail : Unfolds (withBackoff (some n) factory) ⟨m, some []⟩ out last) :
    Unfolds (withBackoff (some n) factory) ⟨0, none⟩ ((List.range m).flatMap factory ++ out) last := by
  induction m, pos using Nat.le_induction generalizing out with
  | base =>
    have opens : withBackoff (some n) factory ⟨0, none⟩ = withBackoff (some n) factory ⟨1, some (factory 0)⟩ := by
      simp [withBackoff, nextStream_eq room]
    simpa using Unfolds.of_step opens (unfolds_append tail)
  | succ m pos ih =>
    have earlier := ih (Nat.le_of_succ_le room) (fun i low high => filled i low (Nat.lt_succ_of_lt high))
      (.of_step (withBackoff_restart room (filled m pos (Nat.lt_succ_self m))) (unfolds_append tail))
    simpa [range_succ] using earlier

/-- A restart that finds its source empty ends the whole, whatever calls are left. -/
theorem unfolds_empty (room : m < n) (empty : factory m = []) :
    Unfolds (withBackoff (some n) factory) ⟨m, some []⟩ [] ⟨m + 1, none⟩ :=
  .ended (by simp [withBackoff, pull, restart, nextStream_eq room, empty])

theorem unfolds_exhausted : Unfolds (withBackoff (some n) factory) ⟨n, some []⟩ [] ⟨n, none⟩ :=
  .ended (by simp [withBackoff, pull, restart, nextStream])

/-- The output is the sources of all calls in their order, and all calls are made, exactly where no restart but the
last finds its source empty. -/
theorem with_backoff_iff (positive : 1 ≤ n) :
    (∃ last, Unfolds (withBackoff (some n) factory) ⟨0, none⟩ ((List.range n).flatMap factory) last ∧
      last.attempts = n) ↔ ∀ i, 1 ≤ i → i + 1 < n → factory i ≠ [] := by
  constructor
  · rintro ⟨last, whole, all⟩ i
    -- The first empty source would end the output there.
    induction i using Nat.strong_induction_on with
    | _ i ih =>
      intro low high empty
      have pre := unfolds_range low (by omega) (fun j below above => ih j above below (by omega))
        (unfolds_empty (Nat.lt_of_succ_lt high) empty)
      obtain ⟨_, rfl⟩ := whole.unique pre
      exact absurd all (Nat.ne_of_lt high)
  · intro filled
    obtain ⟨m, rfl⟩ := Nat.exists_eq_succ_of_ne_zero (ne_of_gt positive)
    refine ⟨⟨m + 1, none⟩, ?_, rfl⟩
    by_cases empty : 1 ≤ m ∧ factory m = []
    · have pre := unfolds_range empty.1 (Nat.le_succ m) (fun i low high => filled i low (Nat.succ_lt_succ high))
        (unfolds_empty (Nat.lt_succ_self m) empty.2)
      simpa [range_succ, empty.2] using pre
    · have all : ∀ i, 1 ≤ i → i < m + 1 → factory i ≠ [] := by
        intro i low high
        rcases Nat.lt_succ_iff_lt_or_eq.1 high with below | rfl
        · exact filled i low (Nat.succ_lt_succ below)
        · exact fun ends => empty ⟨low, ends⟩
      simpa using unfolds_range positive (le_refl _) all unfolds_exhausted

theorem with_backoff_three_sources : 1 ≤ 3 ∧ (∀ i, 1 ≤ i → i + 1 < 3 → [i, 7] ≠ []) ∧
    ∃ last, Unfolds (withBackoff (some 3) fun i => [i, 7]) ⟨0, none⟩ [0, 7, 1, 7, 2, 7] last ∧ last.attempts = 3 :=
  have filled (i : Nat) (_ : 1 ≤ i) (_ : i + 1 < 3) : [i, 7] ≠ [] := cons_ne_nil _ _
  ⟨by decide, filled, (with_backoff_iff (by decide)).2 filled⟩

/-- Three calls are allowed. The second source is empty, so the third is never opened. -/
theorem with_backoff_stops_at_empty :
    Unfolds (withBackoff (some 3) fun i => if i = 1 then [] else [i]) ⟨0, none⟩ [0] ⟨2, none⟩ ∧
      ((List.range 3).flatMap fun i => if i = 1 then [] else [i]) = [0, 2] :=
  ⟨.emits rfl (.ended rfl), rfl⟩

end Atomr.Streams.RestartSource
