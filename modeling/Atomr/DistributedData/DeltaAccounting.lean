import Atomr.DistributedData.DeltaGossip
import Atomr.Library.DeltaAccounts

/-! The deltas of one replica, for the counter and the signed sum.

An update writes the state and the pending delta, a merge writes the state alone, and taking the delta
clears what was pending.
-/

namespace Atomr.DistributedData

open Library

namespace GCounter

abbrev Ledger := DeltaLedger String Nat GCounter (Table String Nat)

def ofDeltas (entries : List (DeltaEntry String Nat (Table String Nat))) : GCounter :=
  entries.foldl (fun counter e => counter.mergeDelta e.delta) new

end GCounter

namespace SignedSum

abbrev Ledger := DeltaLedger String Int SignedSum SignedSumDelta

def ofDeltas (entries : List (DeltaEntry String Int SignedSumDelta)) : SignedSum :=
  entries.foldl (fun sum e => sum.mergeDelta e.delta) new

end SignedSum

/-- Every update is carried by one delta or is pending. At a node whose total fits, the deltas and the pending
one add up to the updates, and a fresh replica that is given some of the deltas, each once and in any order, holds
the total of the updates that they carry. -/
theorem delta_accounting {counting : List (LedgerAction String Nat GCounter (Table String Nat))}
    {summing : List (LedgerAction String Int SignedSum SignedSumDelta)} {counter : GCounter.Ledger}
    {sum : SignedSum.Ledger}
    (counted : Run (DeltaLedger.step (GCounter.deltaOps id)) (fun _ _ => True) (.start .new) counting counter)
    (summed : Run (DeltaLedger.step (SignedSum.deltaOps id)) (fun _ _ => True) (.start .new) summing sum)
    (node : String) :
    (DeltaLedger.carriedBy counter.taken ++ counter.waiting = counter.updates ∧
      (account id node counter.updates < 2 ^ 64 →
        (∀ e ∈ counter.taken, e.delta.read id node = account id node e.updates) ∧
        (counter.taken.map fun e => e.delta.read id node).sum + counter.state.pendingDelta.read id node =
          account id node counter.updates ∧
        ∀ applied, applied.Subperm counter.taken →
          (GCounter.ofDeltas applied).content node = account id node (DeltaLedger.carriedBy applied))) ∧
    DeltaLedger.carriedBy sum.taken ++ sum.waiting = sum.updates ∧
    ∀ positive, account (SignedSum.amount positive) node sum.updates < 2 ^ 127 →
      (∀ e ∈ sum.taken, (SignedSum.ofDelta e.delta).entry positive node =
        account (SignedSum.amount positive) node e.updates) ∧
      (sum.taken.map fun e => (SignedSum.ofDelta e.delta).entry positive node).sum +
          sum.state.pending.entry positive node = account (SignedSum.amount positive) node sum.updates ∧
      ∀ applied, applied.Subperm sum.taken →
        (SignedSum.ofDeltas applied).entry positive node =
          account (SignedSum.amount positive) node (DeltaLedger.carriedBy applied) := by
  refine ⟨⟨(GCounter.deltaAccumulates.accounted counted).once, fun fits => ?_⟩,
    (SignedSum.deltaAccumulates.accounted summed).once, fun positive fits => ?_⟩
  · have within : total id (nodeHistory node counter.updates) < 2 ^ 64 := by
      rw [total_nodeHistory]
      exact fits
    exact GCounter.deltaAccumulates.accounting counted (c := ()) within fun n _ => rfl
  · refine SignedSum.deltaAccumulates.accounting summed trivial fun n small => ?_
    exact Nat.min_eq_left (by omega)

def bookkeeping {Op S D : Type} (first second third : Op) (other : S) (delta : D) : List (LedgerAction String Op S D) :=
  [.update "A" first, .merge other, .take, .update "B" second, .update "A" second, .mergeDelta delta, .take,
    .take, .update "A" third]

theorem delta_accounting_bookkeeping :
    ∃ (counter : GCounter.Ledger) (sum : SignedSum.Ledger),
      Run (DeltaLedger.step (GCounter.deltaOps id)) (fun _ _ => True) (.start .new)
        (bookkeeping 5 7 1 (GCounter.new.increment "A" 9) (AList.singleton "B" 2)) counter ∧
      Run (DeltaLedger.step (SignedSum.deltaOps id)) (fun _ _ => True) (.start .new)
        (bookkeeping 5 (-7) 1 (SignedSum.new.add "A" 9) ⟨∅, ∅⟩) sum ∧
      (GCounter.ofDeltas counter.taken.reverse).content "A" = 12 ∧
      (SignedSum.ofDeltas sum.taken.reverse).entry false "A" = 7 := by
  have counted : Run (DeltaLedger.step (GCounter.deltaOps id)) (fun _ _ => True) (.start .new)
      (bookkeeping 5 7 1 (GCounter.new.increment "A" 9) (AList.singleton "B" 2)) _ := Run.of_foldlM rfl
  have summed : Run (DeltaLedger.step (SignedSum.deltaOps id)) (fun _ _ => True) (.start .new)
      (bookkeeping 5 (-7) 1 (SignedSum.new.add "A" 9) ⟨∅, ∅⟩) _ := Run.of_foldlM rfl
  obtain ⟨⟨_, counts⟩, _, sums⟩ := delta_accounting counted summed "A"
  refine ⟨_, _, counted, summed, ?_, ?_⟩
  · exact (counts (by decide)).2.2 _ (List.reverse_perm _).subperm
  · exact (sums false (by decide)).2.2 _ (List.reverse_perm _).subperm

end Atomr.DistributedData
