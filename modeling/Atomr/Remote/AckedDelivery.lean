import Atomr.Remote.Pdu
import Atomr.Library.Table
import Mathlib.Data.Finset.Sort

/-! The two buffers of sliding-window delivery.

The sender keeps envelopes until a cumulative acknowledgement covers them. The
receiver suppresses duplicates, and acknowledges the longest run of numbers
from one on that it has seen.
-/

namespace Atomr.Remote

open Library Finset

def SeqNo.advance (n : Nat) : Nat := (n + 1) % 2 ^ 64

structure AckedSendBuffer where
  capacity : Nat
  pending : Table Nat RemoteEnvelope
  nacks : Finset Nat

namespace AckedSendBuffer

def new (capacity : Nat) : AckedSendBuffer := ⟨capacity, ∅, ∅⟩

variable (b : AckedSendBuffer)

def isFull : Bool := b.capacity ≤ b.pending.entries.length

/-- A full buffer hands the envelope back. -/
def push (envelope : RemoteEnvelope) : Except RemoteEnvelope AckedSendBuffer :=
  if b.isFull then .error envelope else .ok { b with pending := b.pending.insert envelope.seqNo envelope }

def applyAck (ack : AckInfo) : AckedSendBuffer :=
  { b with
    pending := b.pending.retain fun seq _ => ack.cumulativeAck < seq
    nacks := b.nacks ∪ ack.nacks.toFinset }

/-- The envelopes to send again: those still pending whose numbers were nacked. -/
def drainResend : List RemoteEnvelope × AckedSendBuffer :=
  (b.nacks.sort.filterMap fun seq => b.pending.lookup seq, { b with nacks := ∅ })

theorem lookup_applyAck (ack : AckInfo) (seq : Nat) :
    (b.applyAck ack).pending.lookup seq = if ack.cumulativeAck < seq then b.pending.lookup seq else none := by
  rw [applyAck, Table.lookup_retain]
  cases b.pending.lookup seq <;> by_cases above : ack.cumulativeAck < seq <;> simp [above]

theorem mem_drainResend {b : AckedSendBuffer} {env : RemoteEnvelope} :
    env ∈ b.drainResend.1 ↔ ∃ seq ∈ b.nacks, b.pending.lookup seq = some env := by
  simp [drainResend]

end AckedSendBuffer

structure AckedReceiveBuffer where
  cumulative : Nat
  delivered : Finset Nat

namespace AckedReceiveBuffer

def new : AckedReceiveBuffer := ⟨0, ∅⟩

/-- Move the watermark over the numbers that follow it, one by one. -/
def advance : Nat → AckedReceiveBuffer → AckedReceiveBuffer
  | 0, b => b
  | fuel + 1, b =>
    let next := (b.cumulative + 1) % 2 ^ 64
    if next ∈ b.delivered then advance fuel ⟨next, b.delivered.erase next⟩ else b

def observe (b : AckedReceiveBuffer) (seqNo : Nat) : Bool × AckedReceiveBuffer :=
  -- Also the number zero, which no sender gives out before a wrap.
  if seqNo ≤ b.cumulative then (false, b)
  else if seqNo ∈ b.delivered then (false, b)
  else (true, advance (insert seqNo b.delivered).card { b with delivered := insert seqNo b.delivered })

/-- The receiver never asks for a number again. -/
def missingBelow (_cumulative : Nat) (_deliveredAbove : List Nat) : List Nat := []

def ack (b : AckedReceiveBuffer) : AckInfo := ⟨b.cumulative, missingBelow b.cumulative b.delivered.sort⟩

variable {b : AckedReceiveBuffer}

/-- One removal for each retained number is enough: the loop ends at a gap. -/
theorem advance_stops {fuel : Nat} (enough : b.delivered.card ≤ fuel) :
    ((advance fuel b).cumulative + 1) % 2 ^ 64 ∉ (advance fuel b).delivered := by
  induction fuel generalizing b with
  | zero => simp [advance, card_eq_zero.mp (Nat.le_zero.mp enough)]
  | succ fuel ih =>
    by_cases more : (b.cumulative + 1) % 2 ^ 64 ∈ b.delivered
    · rw [advance, if_pos more]
      have fewer := card_erase_lt_of_mem more
      exact ih (Nat.le_of_lt_succ (Nat.lt_of_lt_of_le fewer enough))
    · rw [advance, if_neg more]
      exact more

/-- All numbers up to the watermark, and the retained ones, are among the observed. -/
structure Within (b : AckedReceiveBuffer) (observed : Finset Nat) : Prop where
  below : ∀ n, 1 ≤ n → n ≤ b.cumulative → n ∈ observed
  above : b.delivered ⊆ observed

variable {obs : Finset Nat}

theorem Within.advance (fuel : Nat) (within : b.Within obs) :
    (AckedReceiveBuffer.advance fuel b).Within obs := by
  induction fuel generalizing b with
  | zero => exact within
  | succ fuel ih =>
    by_cases more : (b.cumulative + 1) % 2 ^ 64 ∈ b.delivered
    · rw [AckedReceiveBuffer.advance, if_pos more]
      refine ih ⟨fun n pos bdd => ?_, fun n kept => within.above (mem_of_mem_erase kept)⟩
      -- The new watermark is one above the old one, or zero after a wrap.
      by_cases last : n = (b.cumulative + 1) % 2 ^ 64
      · exact last ▸ within.above more
      · exact within.below n pos (by simp only at bdd; omega)
    · rw [AckedReceiveBuffer.advance, if_neg more]
      exact within

theorem Within.observe (within : b.Within obs) (seqNo : Nat) :
    (b.observe seqNo).2.Within (insert seqNo obs) := by
  have larger : b.Within (insert seqNo obs) :=
    ⟨fun n pos bdd => mem_insert_of_mem (within.below n pos bdd),
      within.above.trans (subset_insert _ _)⟩
  unfold AckedReceiveBuffer.observe
  split
  · exact larger
  · split
    · exact larger
    · exact Within.advance _ ⟨larger.below, insert_subset_insert _ within.above⟩

end AckedReceiveBuffer

end Atomr.Remote
