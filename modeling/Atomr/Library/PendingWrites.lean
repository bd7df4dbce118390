import Mathlib.Data.List.ReduceOption

/-! Writes to one register that have been decided and not yet performed.

The pending writes are listed in the order in which they were decided; some leave the register
alone. Performing them in that order settles the register at the last of them, and so does any
order in which no write overtakes one with another value.
-/

namespace Atomr.Library

open List

variable {V : Type}

/-- The value of the register once the pending writes are performed in their order. -/
def settled (pending : List (Option V)) (current : V) : V := pending.reduceOption.getLast?.getD current

theorem settled_snoc (pending : List (Option V)) (write : Option V) (cur : V) :
    settled (pending ++ [write]) cur = write.getD (settled pending cur) := by
  unfold settled
  rw [reduceOption_append]
  cases write with
  | none => simp
  | some v => simp

theorem settled_perform (pre post : List (Option V)) (write : Option V) (cur : V)
    (agree : ∀ v ∈ write, ∀ other, some other ∈ pre → other = v) :
    settled (pre ++ post) (write.getD cur) = settled (pre ++ write :: post) cur := by
  unfold settled
  rw [reduceOption_append, reduceOption_append]
  cases write with
  | none => rw [reduceOption_cons_of_none, Option.getD_none]
  | some v =>
    rw [reduceOption_cons_of_some]
    cases later : post.reduceOption.getLast? with
    | some last => simp [later, List.getLast?_cons]
    | none =>
      -- Nothing is written later, so the last write still pending agrees with this one.
      rw [List.getLast?_eq_none_iff] at later
      rw [later, append_nil, List.getLast?_concat]
      cases earlier : pre.reduceOption.getLast? with
      | none => rfl
      | some other =>
        exact agree v rfl other (reduceOption_mem_iff.mp (mem_of_getLast? earlier))

end Atomr.Library
