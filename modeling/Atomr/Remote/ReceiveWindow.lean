import Atomr.Remote.AckedDelivery

/-! What a receive buffer knows after any sequence of numbers.

The watermark is the end of the run of observed numbers from one on, and the retained set is what lies
above it. No number is the last one of its type, so the watermark does not wrap.
-/

namespace Atomr.Remote

open List

namespace AckedReceiveBuffer

def observeAll (seen : List Nat) : AckedReceiveBuffer := seen.foldl (fun b seqNo => (b.observe seqNo).2) new

/-- Everything up to the watermark was observed, and the observed numbers above it are retained. -/
structure Splits (b : AckedReceiveBuffer) (seen : List Nat) : Prop where
  below : ∀ n, 1 ≤ n → n ≤ b.cumulative → n ∈ seen
  above : ∀ n, n ∈ b.delivered ↔ n ∈ seen ∧ b.cumulative < n

theorem splits_new : new.Splits [] where
  below n pos bdd := absurd (Nat.le_trans pos bdd) (Nat.not_succ_le_zero 0)
  above n := by simp [new]

variable {b : AckedReceiveBuffer} {seen : List Nat}

theorem Splits.watermark_lt (splits : b.Splits seen) (bdd : ∀ n ∈ seen, n < 2 ^ 64 - 1) :
    b.cumulative < 2 ^ 64 - 1 := by
  rcases Nat.eq_zero_or_pos b.cumulative with zero | pos
  · omega
  · exact bdd _ (splits.below _ pos le_rfl)

theorem Splits.next_eq (splits : b.Splits seen) (bdd : ∀ n ∈ seen, n < 2 ^ 64 - 1) :
    (b.cumulative + 1) % 2 ^ 64 = b.cumulative + 1 := by
  have small := splits.watermark_lt bdd
  exact Nat.mod_eq_of_lt (by omega)

theorem Splits.raise (splits : b.Splits seen) (next : b.cumulative + 1 ∈ b.delivered) :
    Splits ⟨b.cumulative + 1, b.delivered.erase (b.cumulative + 1)⟩ seen where
  below n pos bdd := by
    rcases Nat.lt_or_eq_of_le bdd with less | rfl
    · exact splits.below n pos (Nat.le_of_lt_succ less)
    · exact ((splits.above _).mp next).1
  above n := by
    rw [Finset.mem_erase, splits.above]
    dsimp only
    constructor
    · rintro ⟨other, obs, higher⟩
      exact ⟨obs, by omega⟩
    · rintro ⟨obs, higher⟩
      exact ⟨by omega, obs, by omega⟩

theorem Splits.advance (bdd : ∀ n ∈ seen, n < 2 ^ 64 - 1) (fuel : Nat) {b : AckedReceiveBuffer}
    (splits : b.Splits seen) : (AckedReceiveBuffer.advance fuel b).Splits seen := by
  induction fuel generalizing b with
  | zero => exact splits
  | succ fuel ih =>
    rw [AckedReceiveBuffer.advance, splits.next_eq bdd]
    split
    next more => exact ih (splits.raise more)
    · exact splits

/-- The buffer knows the observed numbers: it is split at the end of their first run. -/
structure Knows (b : AckedReceiveBuffer) (seen : List Nat) : Prop extends Splits b seen where
  gap : b.cumulative + 1 ∉ seen

theorem Knows.observe_eq (knows : b.Knows seen) (seqNo : Nat) :
    b.observe seqNo =
      if 1 ≤ seqNo ∧ seqNo ∉ seen then
        (true, AckedReceiveBuffer.advance (insert seqNo b.delivered).card
          { b with delivered := insert seqNo b.delivered })
      else (false, b) := by
  unfold AckedReceiveBuffer.observe
  split
  next low =>
    refine (if_neg ?_).symm
    rintro ⟨pos, new⟩
    exact new (knows.below seqNo pos low)
  next high =>
    split
    next h =>
      refine (if_neg ?_).symm
      rintro ⟨_, new⟩
      exact new ((knows.above seqNo).mp h).1
    next missing =>
      refine (if_pos ⟨by omega, fun obs => ?_⟩).symm
      exact missing ((knows.above seqNo).mpr ⟨obs, by omega⟩)

theorem Knows.answer (knows : b.Knows seen) (seqNo : Nat) : (b.observe seqNo).1 = true ↔ 1 ≤ seqNo ∧ seqNo ∉ seen := by
  rw [knows.observe_eq]
  split
  next new => exact iff_of_true rfl new
  next old => exact iff_of_false Bool.false_ne_true old

variable {seqNo : Nat}

theorem Knows.again (knows : b.Knows seen) (old : ¬ (1 ≤ seqNo ∧ seqNo ∉ seen)) : b.Knows (seen ++ [seqNo]) := by
  have eq : ∀ n, 1 ≤ n → (n ∈ seen ++ [seqNo] ↔ n ∈ seen) := by
    intro n pos
    rw [mem_append, mem_singleton]
    constructor
    · rintro (pre | rfl)
      · exact pre
      · exact not_not.mp fun new => old ⟨pos, new⟩
    · exact .inl
  refine ⟨⟨fun n pos bdd => (eq n pos).mpr (knows.below n pos bdd), fun n => ?_⟩, ?_⟩
  · rw [knows.above]
    exact and_congr_left fun higher => (eq n (by omega)).symm
  · rw [eq _ (by omega)]
    exact knows.gap

theorem Knows.observe (knows : b.Knows seen) (bdd : ∀ n ∈ seen ++ [seqNo], n < 2 ^ 64 - 1) :
    (b.observe seqNo).2.Knows (seen ++ [seqNo]) := by
  rw [knows.observe_eq]
  split
  next new =>
    -- The number is retained first, and then the watermark moves as far as it can.
    have high : b.cumulative < seqNo := by
      by_contra low
      exact new.2 (knows.below seqNo new.1 (Nat.le_of_not_lt low))
    have retained : Splits { b with delivered := insert seqNo b.delivered } (seen ++ [seqNo]) := by
      refine ⟨fun n pos low => mem_append_left _ (knows.below n pos low), fun n => ?_⟩
      rw [Finset.mem_insert, knows.above, mem_append, mem_singleton]
      constructor
      · rintro (rfl | ⟨obs, higher⟩)
        · exact ⟨.inr rfl, high⟩
        · exact ⟨.inl obs, higher⟩
      · rintro ⟨obs | rfl, higher⟩
        · exact .inr ⟨obs, higher⟩
        · exact .inl rfl
    have splits := retained.advance bdd (insert seqNo b.delivered).card
    refine ⟨splits, fun next => ?_⟩
    have stops := advance_stops (b := { b with delivered := insert seqNo b.delivered }) le_rfl
    rw [splits.next_eq bdd] at stops
    exact stops ((splits.above _).mpr ⟨next, Nat.lt_succ_self _⟩)
  next old => exact knows.again old

theorem knows_observeAll (bdd : ∀ n ∈ seen, n < 2 ^ 64 - 1) : (observeAll seen).Knows seen := by
  induction seen using List.reverseRecOn with
  | nil => exact ⟨splits_new, not_mem_nil⟩
  | append_singleton seen seqNo ih =>
    have pre := ih fun n mem => bdd n (mem_append_left _ mem)
    rw [observeAll, foldl_append]
    exact pre.observe bdd

/-- After any observed numbers, exactly a positive number that was not observed is new, the acknowledged
number is the end of the longest run from one on, and what was observed above it is retained. -/
theorem receive_buffer_exact (seen : List Nat) (bounded : ∀ n ∈ seen, n < 2 ^ 64 - 1) :
    (∀ seqNo, ((observeAll seen).observe seqNo).1 = true ↔ 1 ≤ seqNo ∧ seqNo ∉ seen) ∧
    IsGreatest {c | ∀ n, 1 ≤ n → n ≤ c → n ∈ seen} (observeAll seen).ack.cumulativeAck ∧
    ∀ n, n ∈ (observeAll seen).delivered ↔ n ∈ seen ∧ (observeAll seen).ack.cumulativeAck < n := by
  have knows := knows_observeAll bounded
  refine ⟨knows.answer, ⟨knows.below, fun c run => ?_⟩, knows.above⟩
  by_contra longer
  have past : (observeAll seen).cumulative + 1 ≤ c := Nat.lt_of_not_le longer
  exact knows.gap (run _ (by omega) past)

/-- A gap is closed by its last number, and then the run ends at the next gap. -/
theorem receive_buffer_exact_gap :
    (observeAll [2, 5, 2, 1, 3]).ack.cumulativeAck = 3 ∧ (observeAll [2, 5, 2, 1, 3]).delivered = {5} ∧
      ((observeAll [2, 5, 2, 1, 3]).observe 4).1 = true := by
  refine ⟨by decide, by decide, ?_⟩
  exact ((receive_buffer_exact [2, 5, 2, 1, 3] (by decide)).1 4).mpr (by decide)

end AckedReceiveBuffer

end Atomr.Remote
