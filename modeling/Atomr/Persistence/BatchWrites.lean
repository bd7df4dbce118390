import Atomr.Persistence.StreamLaw

/-! Batches of the journal in memory that fail midway.

The messages before the first one out of order are kept, where the journal on a database rolls
them back.
-/

namespace Atomr.Persistence

open Library List

namespace InMemoryJournal

variable {journal : InMemoryJournal}

def ofId (persistenceId : String) (messages : List PersistentRepr) : List PersistentRepr :=
  messages.filter fun msg => msg.persistenceId = persistenceId

def AllOrNothing (journal : InMemoryJournal) (messages : List PersistentRepr) : Prop :=
  ((journal.writeMessages messages).2 = .ok () ∧ ∀ persistenceId,
    (journal.writeMessages messages).1.stream persistenceId = journal.stream persistenceId ++ ofId persistenceId messages) ∨
  ((∃ error, (journal.writeMessages messages).2 = .error error) ∧ ∀ persistenceId,
    (journal.writeMessages messages).1.stream persistenceId = journal.stream persistenceId)

/-- The number of a message follows those of its stream and of the batch before it. -/
def InTurn (journal : InMemoryJournal) (before : List PersistentRepr) (msg : PersistentRepr) : Prop :=
  msg.sequenceNr = journal.highest msg.persistenceId + (ofId msg.persistenceId before).length + 1

theorem inTurn_next_iff {m other : PersistentRepr} {pre : List PersistentRepr} (first : journal.InTurn [] m) :
    InTurn ⟨journal.streams.insert m.persistenceId (journal.stream m.persistenceId ++ [m])⟩ pre other ↔
      journal.InTurn (m :: pre) other := by
  have stored := stream_insert journal m.persistenceId other.persistenceId
    (journal.stream m.persistenceId ++ [m])
  unfold InTurn ofId at first ⊢
  rw [filter_cons]
  by_cases eq : m.persistenceId = other.persistenceId
  · rw [if_pos eq.symm] at stored
    rw [highest_of_stream_append stored, first, eq]
    simp only [filter_nil, length_nil, decide_true, if_true, length_cons]
    omega
  · rw [if_neg (Ne.symm eq)] at stored
    rw [highest, stored, ← highest, if_neg (by simpa using eq)]

/-- What a write does: the messages up to the first out of turn are appended. -/
structure Written (journal : InMemoryJournal) (messages taken refused : List PersistentRepr) : Prop where
  cut : messages = taken ++ refused
  inTurn : Justified journal.InTurn taken
  stream : ∀ persistenceId, (journal.writeMessages messages).1.stream persistenceId =
    journal.stream persistenceId ++ ofId persistenceId taken
  result : (refused = [] ∧ (journal.writeMessages messages).2 = .ok ()) ∨
    ∃ msg rest, refused = msg :: rest ∧ ¬ journal.InTurn taken msg ∧
      ∃ error, (journal.writeMessages messages).2 = .error error

theorem exists_written (j : InMemoryJournal) (msgs : List PersistentRepr) :
    ∃ taken refused, Written j msgs taken refused := by
  induction msgs generalizing j with
  | nil => exact ⟨[], [], rfl, .nil, fun _ => (append_nil _).symm, .inl ⟨rfl, rfl⟩⟩
  | cons m rest ih =>
    by_cases first : j.InTurn [] m
    · let next : InMemoryJournal :=
        ⟨j.streams.insert m.persistenceId (j.stream m.persistenceId ++ [m])⟩
      have written : j.writeMessages (m :: rest) = next.writeMessages rest := by
        rw [writeMessages, if_neg (not_not.mpr (by rwa [expected_stream]))]
      obtain ⟨taken, refused, cut, inTurn, s, res⟩ := ih next
      refine ⟨m :: taken, refused, congrArg (m :: ·) cut, .cons first ?_, fun pid => ?_, ?_⟩
      · exact inTurn.imp fun pre other => (inTurn_next_iff first).mp
      · rw [written, s, stream_insert]
        unfold ofId
        rw [filter_cons]
        split
        next eq => rw [if_pos (by simpa using eq.symm), eq, append_assoc, singleton_append]
        next other => rw [if_neg (by simpa using Ne.symm other)]
      · rw [written]
        rcases res with done | ⟨other, later, eq, outOfTurn, failed⟩
        · exact .inl done
        · exact .inr ⟨other, later, eq, mt (inTurn_next_iff first).mpr outOfTurn, failed⟩
    · obtain ⟨failed, unch⟩ := writeMessages_out_of_order j m rest first
      refine ⟨[], m :: rest, rfl, .nil, fun pid => ?_, .inr ⟨m, rest, rfl, first, _, failed⟩⟩
      rw [unch]
      exact (append_nil _).symm

theorem eq_nil_of_ofId_eq_nil {msgs : List PersistentRepr} (none : ∀ pid, ofId pid msgs = []) :
    msgs = [] := by
  cases msgs with
  | nil => rfl
  | cons m rest =>
    have found : m ∈ ofId m.persistenceId (m :: rest) := mem_filter.mpr ⟨mem_cons_self, by simp⟩
    rw [none] at found
    cases found

theorem writeMessages_all_or_nothing_iff (journal : InMemoryJournal) (messages : List PersistentRepr) :
    journal.AllOrNothing messages ↔
      Justified journal.InTurn messages ∨ ∃ msg ∈ messages.head?, ¬ journal.InTurn [] msg := by
  obtain ⟨taken, refused, rfl, inTurn, stream, res⟩ := exists_written journal messages
  rcases res with ⟨rfl, accepted⟩ | ⟨msg, rest, rfl, outOfTurn, err, failed⟩
  · rw [append_nil] at stream accepted ⊢
    exact ⟨fun _ => .inl inTurn, fun _ => .inl ⟨accepted, stream⟩⟩
  · constructor
    · rintro (⟨accepted, -⟩ | ⟨-, unchanged⟩)
      · rw [accepted] at failed
        cases failed
      -- Nothing was appended, so that the first message is the one out of turn.
      · obtain rfl : taken = [] := eq_nil_of_ofId_eq_nil fun pid => by
          have eq := (stream pid).symm.trans (unchanged pid)
          exact append_right_eq_self.mp eq
        exact .inr ⟨msg, rfl, outOfTurn⟩
    · rintro (all | ⟨first, isFirst, outOfTurnFirst⟩)
      · exact absurd (all taken msg rest rfl) outOfTurn
      · have none : taken = [] := by
          cases taken with
          | nil => rfl
          | cons head tail =>
            cases isFirst
            exact absurd (inTurn [] _ tail rfl) outOfTurnFirst
        subst none
        exact .inr ⟨⟨err, failed⟩, fun pid => (stream pid).trans (append_nil _)⟩

/-- The first message of the batch stays though the second is refused. -/
theorem partial_batch_kept : ¬ AllOrNothing .new [bareMessage "p" 1, bareMessage "p" 3] := by
  rintro (⟨accepted, -⟩ | ⟨-, unchanged⟩)
  · cases accepted
  · cases unchanged "p"

end InMemoryJournal

end Atomr.Persistence
