import Atomr.Library.Table
import Mathlib.Algebra.Ring.Nat

/-! The journal trait and the journal in memory.

Sequence numbers are 64-bit in the program and never decrease here, so they are
plain numbers; results that need the width say so.
-/

namespace Atomr.Persistence

open Library List

structure PersistentRepr where
  persistenceId : String
  sequenceNr : Nat
  payload : List UInt8
  manifest : String
  writerUuid : String
  deleted : Bool
  tags : List String
  deriving DecidableEq, Repr

inductive JournalError where
  | sequenceOutOfOrder (expected got : Nat)
  | notFound (persistenceId : String)
  | backend (message : String)
  deriving DecidableEq, Repr

/-- A failed write may have stored a part of the batch. -/
class Journal (J : Type) where
  writeMessages : J → List PersistentRepr → J × Except JournalError Unit
  replayMessages : J → (persistenceId : String) → (first last max : Nat) → Except JournalError (List PersistentRepr)
  highestSequenceNr : J → (persistenceId : String) → (first : Nat) → Except JournalError Nat

structure InMemoryJournal where
  streams : Table String (List PersistentRepr)

namespace InMemoryJournal

def new : InMemoryJournal := ⟨∅⟩

/-- The stored stream; an id without one reads as empty. -/
def stream (journal : InMemoryJournal) (persistenceId : String) : List PersistentRepr :=
  (journal.streams.lookup persistenceId).getD []

def expected (entry : List PersistentRepr) : Nat := (entry.getLast?.map fun r => r.sequenceNr + 1).getD 1

/-- The first message out of order ends the loop; the entry of its id exists by then. -/
def writeMessages (journal : InMemoryJournal) : List PersistentRepr → InMemoryJournal × Except JournalError Unit
  | [] => (journal, .ok ())
  | msg :: rest =>
    let entry := journal.stream msg.persistenceId
    if msg.sequenceNr ≠ expected entry then
      (⟨journal.streams.insert msg.persistenceId entry⟩, .error (.sequenceOutOfOrder (expected entry) msg.sequenceNr))
    else writeMessages ⟨journal.streams.insert msg.persistenceId (entry ++ [msg])⟩ rest

def replayMessages (journal : InMemoryJournal) (persistenceId : String) (first last max : Nat) :
    Except JournalError (List PersistentRepr) :=
  .ok (((journal.stream persistenceId).filter fun r =>
    !r.deleted && r.sequenceNr ≥ first && r.sequenceNr ≤ last).take max)

def highest (journal : InMemoryJournal) (persistenceId : String) : Nat :=
  ((journal.stream persistenceId).getLast?.map PersistentRepr.sequenceNr).getD 0

/-- Messages up to a number are marked as deleted and stay where they are. -/
def deleteMessagesTo (journal : InMemoryJournal) (persistenceId : String) (toSequenceNr : Nat) : InMemoryJournal :=
  ⟨journal.streams.adjust persistenceId fun stream =>
    stream.map fun r => if r.sequenceNr ≤ toSequenceNr then { r with deleted := true } else r⟩

def allPersistenceIds (journal : InMemoryJournal) : List String := journal.streams.keys

instance : Journal InMemoryJournal where
  writeMessages := writeMessages
  replayMessages := replayMessages
  highestSequenceNr journal persistenceId _ := .ok (journal.highest persistenceId)

theorem stream_insert (j : InMemoryJournal) (pid other : String) (e : List PersistentRepr) :
    stream ⟨j.streams.insert pid e⟩ other =
      if other = pid then e else j.stream other := by
  simp only [stream, Table.lookup_insert_if]
  split <;> rfl

theorem stream_deleteMessagesTo (j : InMemoryJournal) (pid other : String) (toNr : Nat) :
    (j.deleteMessagesTo pid toNr).stream other =
      if other = pid then
        (j.stream other).map fun r => if r.sequenceNr ≤ toNr then { r with deleted := true } else r
      else j.stream other := by
  simp only [stream, deleteMessagesTo, Table.lookup_adjust_if]
  split
  · cases j.streams.lookup other <;> rfl
  · rfl

variable {j : InMemoryJournal} {pid : String} {msgs : List PersistentRepr} {m : PersistentRepr}

theorem mem_allPersistenceIds (mem : m ∈ j.stream pid) :
    pid ∈ j.allPersistenceIds := by
  by_contra ha
  rw [stream, AList.lookup_eq_none.mpr fun known => ha (AList.mem_keys.mp known)] at mem
  cases mem

theorem expected_stream (j : InMemoryJournal) (pid : String) :
    expected (j.stream pid) = j.highest pid + 1 := by
  unfold expected highest
  cases (j.stream pid).getLast? <;> rfl

theorem highest_of_stream_append {e : List PersistentRepr}
    (stored : j.stream pid = e ++ [m]) : j.highest pid = m.sequenceNr := by
  simp [highest, stored]

/-- A batch numbered on from the highest stored number is appended to its stream. -/
theorem writeMessages_in_order (ids : ∀ m ∈ msgs, m.persistenceId = pid) {start : Nat}
    (nums : msgs.map PersistentRepr.sequenceNr = List.range' (start + 1) msgs.length)
    (sync : start = j.highest pid) :
    (j.writeMessages msgs).2 = .ok () ∧
    (j.writeMessages msgs).1.stream pid = j.stream pid ++ msgs ∧
    (j.writeMessages msgs).1.highest pid = start + msgs.length := by
  induction msgs generalizing j start with
  | nil => simp [writeMessages, sync]
  | cons m rest ih =>
    obtain ⟨rfl, ids⟩ := forall_mem_cons.mp ids
    simp only [map_cons, length_cons, List.range'_succ, List.cons.injEq] at nums
    obtain ⟨num, nums⟩ := nums
    have acc : m.sequenceNr = expected (j.stream m.persistenceId) := by
      rw [expected_stream, ← sync, num]
    let next : InMemoryJournal :=
      ⟨j.streams.insert m.persistenceId (j.stream m.persistenceId ++ [m])⟩
    have stored : next.stream m.persistenceId = j.stream m.persistenceId ++ [m] := by
      rw [stream_insert, if_pos rfl]
    have written : j.writeMessages (m :: rest) = next.writeMessages rest := by
      simp only [writeMessages, ← acc, ne_eq]
      rfl
    -- The message just stored is the highest, so the rest of the batch is in order again.
    have later := ih ids nums (num ▸ (highest_of_stream_append stored).symm)
    rw [written]
    refine ⟨later.1, ?_, ?_⟩
    · rw [later.2.1, stored, append_assoc]
      rfl
    · rw [length_cons]
      omega

/-- A batch that does not follow the highest stored number is refused as a whole. -/
theorem writeMessages_out_of_order (j : InMemoryJournal) (m : PersistentRepr) (rest : List PersistentRepr)
    (gap : m.sequenceNr ≠ j.highest m.persistenceId + 1) :
    (j.writeMessages (m :: rest)).2 =
        .error (.sequenceOutOfOrder (j.highest m.persistenceId + 1) m.sequenceNr) ∧
      ∀ pid, (j.writeMessages (m :: rest)).1.stream pid = j.stream pid := by
  simp only [writeMessages, expected_stream, ne_eq, gap, not_false_iff, if_true, true_and]
  intro pid
  rw [stream_insert]
  split
  next eq => rw [eq]
  · rfl

theorem stream_writeMessages_of_ne {other : String} (ids : ∀ m ∈ msgs, m.persistenceId = pid)
    (ne : other ≠ pid) (j : InMemoryJournal) :
    (j.writeMessages msgs).1.stream other = j.stream other := by
  induction msgs generalizing j with
  | nil => rfl
  | cons m rest ih =>
    obtain ⟨rfl, ids⟩ := forall_mem_cons.mp ids
    unfold writeMessages
    simp only
    split
    · rw [stream_insert, if_neg ne]
    · rw [ih ids, stream_insert, if_neg ne]

/-- What holds of the streams and is kept by every accepted message holds after a write, accepted or refused. -/
theorem writeMessages_invariant (Inv : (String → List PersistentRepr) → Prop)
    (s : ∀ streams, ∀ m ∈ msgs, Inv streams → m.sequenceNr = expected (streams m.persistenceId) →
      Inv (Function.update streams m.persistenceId (streams m.persistenceId ++ [m])))
    (start : Inv j.stream) : Inv (j.writeMessages msgs).1.stream := by
  induction msgs generalizing j with
  | nil => exact start
  | cons m rest ih =>
    have ins (e : List PersistentRepr) : stream ⟨j.streams.insert m.persistenceId e⟩ =
        Function.update j.stream m.persistenceId e := by
      funext other
      rw [stream_insert, Function.update_apply]
    unfold writeMessages
    simp only
    split
    · rw [ins, Function.update_eq_self]
      exact start
    next acc =>
      refine ih (fun streams later mem => s streams later (mem_cons_of_mem m mem)) ?_
      rw [ins]
      exact s j.stream m mem_cons_self start (not_not.mp acc)

/-- A replay that starts after a number skips the events up to it and no others. -/
theorem replayMessages_suffix {count max skipped : Nat}
    (nums : (j.stream pid).map PersistentRepr.sequenceNr = List.range' 1 count)
    (kept : ∀ repr ∈ j.stream pid, repr.deleted = false) (room : count ≤ max)
    (within : skipped ≤ count) :
    j.replayMessages pid (skipped + 1) count max =
      .ok ((j.stream pid).drop skipped) := by
  rw [← Nat.add_sub_cancel' within, ← List.range'_append_1] at nums
  obtain ⟨early, late, s, pre, post⟩ := map_eq_append_iff.mp nums
  have lengths : early.length = skipped ∧ late.length = count - skipped :=
    ⟨by simpa using congrArg List.length pre, by simpa using congrArg List.length post⟩
  have dropped : early.filter (fun repr =>
      !repr.deleted && repr.sequenceNr ≥ skipped + 1 && repr.sequenceNr ≤ count) = [] := by
    refine filter_eq_nil_iff.mpr fun repr mem => ?_
    have num := mem_map_of_mem (f := PersistentRepr.sequenceNr) mem
    rw [pre, mem_range'_1] at num
    simp only [Bool.and_eq_true, decide_eq_true_eq]
    omega
  have sel : late.filter (fun repr =>
      !repr.deleted && repr.sequenceNr ≥ skipped + 1 && repr.sequenceNr ≤ count) = late := by
    refine filter_eq_self.mpr fun repr mem => ?_
    have num := mem_map_of_mem (f := PersistentRepr.sequenceNr) mem
    rw [post, mem_range'_1] at num
    rw [kept repr (s ▸ mem_append_right early mem)]
    simp only [Bool.not_false, Bool.true_and, Bool.and_eq_true, decide_eq_true_eq]
    omega
  rw [replayMessages, s, filter_append, dropped, sel, nil_append, drop_left' lengths.1,
    take_of_length_le (by omega)]

end InMemoryJournal

end Atomr.Persistence
