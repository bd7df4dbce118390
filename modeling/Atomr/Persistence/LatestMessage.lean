import Atomr.Persistence.Journal

/-! A stream of the journal as a cell: what was written last is the value.

A store that keeps a value this way appends a message for every write, and reads the message
with the highest number back. A deleted message is not read.
-/

namespace Atomr.Persistence

open List

def NumberedStream (stream : List PersistentRepr) : Prop :=
  stream.map PersistentRepr.sequenceNr = List.range' 1 stream.length

def latest (stream : List PersistentRepr) : Option PersistentRepr := stream.getLast?.filter fun r => !r.deleted

theorem latest_snoc (s : List PersistentRepr) (m : PersistentRepr) :
    latest (s ++ [m]) = if m.deleted then none else some m := by
  cases del : m.deleted <;> simp [latest, del]

theorem latest_toList (s : List PersistentRepr) :
    ((latest s).toList.getLast?.filter fun r => !r.deleted) = latest s := by
  cases last : latest s with
  | none => rfl
  | some m =>
    have live : !m.deleted := (Option.filter_eq_some_iff.mp last).2
    simp [live]

theorem NumberedStream.nil : NumberedStream [] := rfl

variable {s : List PersistentRepr} {m : PersistentRepr}

theorem NumberedStream.snoc_iff :
    NumberedStream (s ++ [m]) ↔ NumberedStream s ∧ m.sequenceNr = s.length + 1 := by
  have nums : List.range' 1 (s.length + 1) = List.range' 1 s.length ++ [s.length + 1] := by
    rw [List.range'_1_concat, Nat.add_comm]
  simp only [NumberedStream, map_append, map_cons, map_nil, length_append, length_singleton,
    nums]
  constructor
  · intro eq
    obtain ⟨earlier, last⟩ := append_inj' eq rfl
    exact ⟨earlier, singleton_inj.mp last⟩
  · rintro ⟨earlier, last⟩
    rw [earlier, last]

theorem NumberedStream.expected (numbered : NumberedStream s) :
    InMemoryJournal.expected s = s.length + 1 := by
  rcases eq_nil_or_concat' s with rfl | ⟨early, last, rfl⟩
  · rfl
  · simp [InMemoryJournal.expected, (NumberedStream.snoc_iff.mp numbered).2]

theorem NumberedStream.increasing (numbered : NumberedStream s) :
    s.Pairwise fun first second => first.sequenceNr < second.sequenceNr := by
  rw [← pairwise_map, numbered]
  exact pairwise_lt_range'

theorem NumberedStream.positive (numbered : NumberedStream s) (mem : m ∈ s) : 0 < m.sequenceNr := by
  have num := mem_map_of_mem (f := PersistentRepr.sequenceNr) mem
  rw [numbered, mem_range'_1] at num
  exact num.1

theorem NumberedStream.delete (numbered : NumberedStream s) (toNr : Nat) :
    NumberedStream (s.map fun r => if r.sequenceNr ≤ toNr then { r with deleted := true } else r) := by
  have kept (r : PersistentRepr) :
      (if r.sequenceNr ≤ toNr then { r with deleted := true } else r).sequenceNr = r.sequenceNr := by
    split <;> rfl
  rw [NumberedStream, map_map, length_map, ← numbered]
  exact map_congr_left fun r _ => kept r

namespace InMemoryJournal

variable {j : InMemoryJournal} {pid : String}
  (numbered : NumberedStream (j.stream pid))
include numbered

theorem highest_of_numbered : j.highest pid = (j.stream pid).length :=
  Nat.succ.inj ((j.expected_stream pid).symm.trans numbered.expected)

theorem latest_of_highest (none : j.highest pid = 0) :
    latest (j.stream pid) = .none := by
  rw [highest_of_numbered numbered] at none
  rw [length_eq_zero_iff.mp none]
  rfl

theorem replayMessages_highest :
    j.replayMessages pid (j.highest pid) (j.highest pid) 1 =
      .ok (latest (j.stream pid)).toList := by
  rcases eq_nil_or_concat' (j.stream pid) with empty | ⟨s, m, cut⟩
  · simp [replayMessages, latest, empty]
  · have top : j.highest pid = m.sequenceNr := highest_of_stream_append cut
    rw [cut] at numbered
    obtain ⟨earlier, last⟩ := NumberedStream.snoc_iff.mp numbered
    have skipped : s.filter (fun r => !r.deleted && r.sequenceNr ≥ m.sequenceNr && r.sequenceNr ≤ m.sequenceNr) =
        [] := by
      refine filter_eq_nil_iff.mpr fun r mem => ?_
      have num := mem_map_of_mem (f := PersistentRepr.sequenceNr) mem
      rw [earlier, mem_range'_1] at num
      simp only [Bool.and_eq_true, decide_eq_true_eq]
      omega
    rw [replayMessages, top, cut, filter_append, skipped, latest_snoc]
    cases del : m.deleted <;> simp [del]
omit numbered

theorem writeMessages_next {m : PersistentRepr} (id : m.persistenceId = pid)
    (next : m.sequenceNr = j.highest pid + 1) (other : String) :
    (j.writeMessages [m]).1.stream other =
      if other = pid then j.stream other ++ [m] else j.stream other := by
  split
  next eq =>
    subst eq
    have nums : [m].map PersistentRepr.sequenceNr = List.range' (j.highest other + 1) [m].length := by
      simp [next]
    exact (writeMessages_in_order (by simpa using id) nums rfl).2.1
  next ne => exact stream_writeMessages_of_ne (by simpa using id) ne j

theorem mem_streams_writeMessages (j : InMemoryJournal) (m : PersistentRepr) (other : String) :
    other ∈ (j.writeMessages [m]).1.streams ↔ other = m.persistenceId ∨ other ∈ j.streams := by
  simp only [writeMessages]
  split <;> exact AList.mem_insert _

theorem mem_streams_deleteMessagesTo (j : InMemoryJournal) (pid other : String) (toNr : Nat) :
    other ∈ (j.deleteMessagesTo pid toNr).streams ↔ other ∈ j.streams := by
  rw [← AList.lookup_isSome, ← AList.lookup_isSome, deleteMessagesTo, Library.Table.lookup_adjust_if]
  split
  · rw [Option.isSome_map]
  · rfl

theorem deleteMessagesTo_highest (numbered : NumberedStream (j.stream pid)) :
    NumberedStream ((j.deleteMessagesTo pid (j.highest pid)).stream pid) ∧
      latest ((j.deleteMessagesTo pid (j.highest pid)).stream pid) = none := by
  rw [stream_deleteMessagesTo, if_pos rfl]
  constructor
  · exact numbered.delete _
  · rcases eq_nil_or_concat' (j.stream pid) with empty | ⟨s, m, cut⟩
    · simp [latest, empty]
    · rw [highest_of_stream_append cut, cut, map_append, map_cons, map_nil, latest_snoc]
      simp

end InMemoryJournal

end Atomr.Persistence
