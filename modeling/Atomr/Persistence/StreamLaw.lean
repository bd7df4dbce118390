import Atomr.Library.History
import Atomr.Persistence.Journal
import Mathlib.Data.List.Induction

/-! Whole histories of the journal in memory.

What calls amount to is told without the journal: a message is written if its number is that of
its stream's events plus one, and a deletion covers what was written before it.
-/

namespace Atomr.Persistence

open Library List

inductive JournalCall where
  | write (messages : List PersistentRepr)
  | delete (persistenceId : String) (toSequenceNr : Nat)
  deriving DecidableEq, Repr

/-- The messages of a caller are not marked as deleted. -/
def JournalCall.Plain : JournalCall → Prop
  | .write messages => ∀ msg ∈ messages, msg.deleted = false
  | .delete _ _ => True

variable (persistenceId : String)

def JournalCall.Touches : JournalCall → Prop
  | .write messages => ∃ msg ∈ messages, msg.persistenceId = persistenceId
  | .delete id _ => id = persistenceId

def InMemoryJournal.perform (journal : InMemoryJournal) : JournalCall → InMemoryJournal
  | .write messages => (journal.writeMessages messages).1
  | .delete persistenceId toSequenceNr => journal.deleteMessagesTo persistenceId toSequenceNr

inductive Fact where
  | written (msg : PersistentRepr)
  | deletedTo (persistenceId : String) (bound : Nat)
  deriving DecidableEq, Repr

namespace Fact

def event? (persistenceId : String) : Fact → Option PersistentRepr
  | .written msg => if msg.persistenceId = persistenceId then some msg else none
  | .deletedTo _ _ => none

def erases (persistenceId : String) (number : Nat) : Fact → Bool
  | .written _ => false
  | .deletedTo id bound => id = persistenceId && number ≤ bound

end Fact

def events (facts : List Fact) : List PersistentRepr := facts.filterMap (Fact.event? persistenceId)

/-- The rest of a batch is dropped with its first message out of order. -/
def accept (facts : List Fact) : List PersistentRepr → List Fact
  | [] => facts
  | msg :: rest =>
    if msg.sequenceNr = (events msg.persistenceId facts).length + 1 then accept (facts ++ [.written msg]) rest else facts

def account (facts : List Fact) : JournalCall → List Fact
  | .write messages => accept facts messages
  | .delete persistenceId bound => facts ++ [.deletedTo persistenceId bound]

/-- The events of an id above every bound that came after them. -/
def survivors (persistenceId : String) : List Fact → List PersistentRepr
  | [] => []
  | fact :: later =>
    ((fact.event? persistenceId).filter fun msg => !later.any (Fact.erases persistenceId msg.sequenceNr)).toList ++
      survivors persistenceId later

structure StreamLaw (journal : InMemoryJournal) (facts : List Fact) : Prop where
  numbers : ∀ persistenceId, (journal.stream persistenceId).map PersistentRepr.sequenceNr =
    List.range' 1 (events persistenceId facts).length
  highest : ∀ persistenceId first,
    Journal.highestSequenceNr journal persistenceId first = .ok (events persistenceId facts).length
  replay : ∀ persistenceId first last max, Journal.replayMessages journal persistenceId first last max =
    .ok (((survivors persistenceId facts).filter fun msg => first ≤ msg.sequenceNr ∧ msg.sequenceNr ≤ last).take max)
  ascending : ∀ persistenceId, ((survivors persistenceId facts).map PersistentRepr.sequenceNr).Pairwise (· < ·)
  apart : ∀ call persistenceId, ¬ call.Touches persistenceId →
    (journal.perform call).stream persistenceId = journal.stream persistenceId

/-- The events of an id, each marked if a later bound covers it. -/
def marked (persistenceId : String) : List Fact → List PersistentRepr
  | [] => []
  | fact :: later =>
    ((fact.event? persistenceId).map fun msg =>
      { msg with deleted := msg.deleted || later.any (Fact.erases persistenceId msg.sequenceNr) }).toList ++
      marked persistenceId later

section Marked
variable {pid : String} {facts : List Fact}

theorem events_snoc (pid : String) (facts : List Fact) (fact : Fact) :
    events pid (facts ++ [fact]) = events pid facts ++ (fact.event? pid).toList := by
  rw [events, filterMap_append, filterMap_cons]
  cases fact.event? pid <;> rfl

theorem marked_snoc (pid : String) (facts : List Fact) (fact : Fact) :
    marked pid (facts ++ [fact]) =
      (marked pid facts).map (fun m =>
        { m with deleted := m.deleted || fact.erases pid m.sequenceNr }) ++
        (fact.event? pid).toList := by
  induction facts with
  | nil =>
    cases ev : fact.event? pid <;> simp [marked, ev]
  | cons first later ih =>
    rw [cons_append, marked, ih, marked]
    cases first.event? pid <;> simp [Bool.or_assoc]

theorem map_sequenceNr_marked (pid : String) (facts : List Fact) :
    (marked pid facts).map PersistentRepr.sequenceNr =
      (events pid facts).map PersistentRepr.sequenceNr := by
  induction facts with
  | nil => rfl
  | cons fact later ih =>
    unfold events at ih ⊢
    rw [marked, map_append, ih, filterMap_cons]
    cases fact.event? pid <;> rfl

theorem survivors_eq_filter (plain : ∀ m, .written m ∈ facts → m.deleted = false) :
    survivors pid facts = (marked pid facts).filter fun m => !m.deleted := by
  induction facts with
  | nil => rfl
  | cons fact later ih =>
    have rest := ih fun m mem => plain m (mem_cons_of_mem _ mem)
    rw [survivors, marked, rest]
    cases ev : fact.event? pid with
    | none => rfl
    | some m =>
      have fresh : m.deleted = false := by
        cases fact with
        | written written =>
          obtain ⟨-, eq⟩ := Option.ite_none_right_eq_some.mp ev
          exact Option.some.inj eq ▸ plain written mem_cons_self
        | deletedTo => cases ev
      obtain ⟨id, num, p, manifest, writer, del, tags⟩ := m
      obtain rfl : del = false := fresh
      cases cov : later.any (Fact.erases pid num) <;>
        simp only [Option.map_some, Option.filter_some, cov] <;> rfl

end Marked

/-- The streams are those of the account, numbered from 1. -/
structure Follows (journal : InMemoryJournal) (facts : List Fact) : Prop where
  stream : ∀ persistenceId, journal.stream persistenceId = marked persistenceId facts
  numbers : ∀ persistenceId, (events persistenceId facts).map PersistentRepr.sequenceNr =
    List.range' 1 (events persistenceId facts).length
  plain : ∀ msg, .written msg ∈ facts → msg.deleted = false

namespace Follows

variable {j : InMemoryJournal} {facts : List Fact}

theorem new : Follows .new [] := ⟨fun _ => rfl, fun _ => rfl, by simp⟩

variable (follows : Follows j facts)
include follows

theorem map_sequenceNr (pid : String) :
    (j.stream pid).map PersistentRepr.sequenceNr =
      List.range' 1 (events pid facts).length := by
  rw [follows.stream, map_sequenceNr_marked, follows.numbers]

theorem highest (pid : String) : j.highest pid = (events pid facts).length := by
  rw [InMemoryJournal.highest, ← List.getLast?_map, follows.map_sequenceNr]
  cases (events pid facts).length with
  | zero => rfl
  | succ count => rw [List.range'_1_concat, List.getLast?_concat, Option.getD_some, Nat.add_comm]

theorem written {m : PersistentRepr} (fresh : m.deleted = false)
    (num : m.sequenceNr = (events m.persistenceId facts).length + 1) :
    Follows ⟨j.streams.insert m.persistenceId (j.stream m.persistenceId ++ [m])⟩
      (facts ++ [.written m]) := by
  refine ⟨fun pid => ?_, fun pid => ?_, ?_⟩
  · rw [InMemoryJournal.stream_insert, marked_snoc]
    simp only [Fact.erases, Bool.or_false, map_id', Fact.event?]
    split
    next eq => rw [eq, if_pos rfl, follows.stream, Option.toList_some]
    next other => rw [if_neg (Ne.symm other), follows.stream, Option.toList_none, append_nil]
  · rw [events_snoc]
    by_cases eq : m.persistenceId = pid
    · subst eq
      simp only [Fact.event?, if_true, Option.toList_some, map_append, follows.numbers, length_append,
        length_singleton, map_singleton, num]
      rw [List.range'_1_concat, Nat.add_comm 1]
    · simp only [Fact.event?, if_neg eq, Option.toList_none, append_nil]
      exact follows.numbers pid
  · refine fun other mem => (mem_append.mp mem).elim (follows.plain other) fun new => ?_
    cases mem_singleton.mp new
    exact fresh

theorem deleted (pid : String) (bound : Nat) :
    Follows (j.deleteMessagesTo pid bound) (facts ++ [.deletedTo pid bound]) := by
  refine ⟨fun other => ?_, fun other => ?_, ?_⟩
  · rw [InMemoryJournal.stream_deleteMessagesTo, marked_snoc, follows.stream]
    simp only [Fact.event?, Option.toList_none, append_nil, Fact.erases]
    split
    next eq =>
      refine map_congr_left fun m _ => ?_
      by_cases cov : m.sequenceNr ≤ bound <;> simp [cov, eq]
    next ne => simp [Ne.symm ne]
  · rw [events_snoc]
    exact (append_nil _).symm ▸ follows.numbers other
  · refine fun m mem => (mem_append.mp mem).elim (follows.plain m) fun new => ?_
    cases mem_singleton.mp new
omit follows

theorem writeMessages {msgs : List PersistentRepr} (fresh : ∀ m ∈ msgs, m.deleted = false)
    (follows : Follows j facts) : Follows (j.writeMessages msgs).1 (accept facts msgs) := by
  induction msgs generalizing j facts with
  | nil => exact follows
  | cons m rest ih =>
    obtain ⟨first, later⟩ := forall_mem_cons.mp fresh
    simp only [InMemoryJournal.writeMessages, accept, InMemoryJournal.expected_stream, follows.highest]
    by_cases num : m.sequenceNr = (events m.persistenceId facts).length + 1
    · rw [if_neg (not_not.mpr num), if_pos num]
      exact ih later (follows.written first num)
    · rw [if_pos num, if_neg num]
      -- The entry of the refused id is put back as it was.
      refine ⟨fun pid => ?_, follows.numbers, follows.plain⟩
      rw [InMemoryJournal.stream_insert]
      split
      next eq => rw [eq, follows.stream]
      · exact follows.stream pid

theorem perform (follows : Follows j facts) {c : JournalCall} (plain : c.Plain) :
    Follows (j.perform c) (account facts c) := by
  cases c with
  | write msgs => exact follows.writeMessages plain
  | delete pid bound => exact follows.deleted pid bound

end Follows

variable {journal : InMemoryJournal}

theorem stream_perform_of_not_touches {c : JournalCall} {pid : String}
    (untouched : ¬ c.Touches pid) :
    (journal.perform c).stream pid = journal.stream pid := by
  cases c with
  | write msgs =>
    refine InMemoryJournal.writeMessages_invariant (fun streams => streams pid = journal.stream pid)
      (fun streams m mem kept _ => ?_) rfl
    have other : pid ≠ m.persistenceId := fun eq => untouched ⟨m, mem, eq.symm⟩
    rw [Function.update_of_ne other]
    exact kept
  | delete id bound =>
    have other : pid ≠ id := fun eq => untouched eq.symm
    rw [InMemoryJournal.perform, InMemoryJournal.stream_deleteMessagesTo, if_neg other]

theorem Follows.streamLaw {facts : List Fact} (follows : Follows journal facts) : StreamLaw journal facts where
  numbers := follows.map_sequenceNr
  highest pid first := congrArg Except.ok (follows.highest pid)
  replay pid first last max := by
    refine congrArg (fun found => Except.ok (List.take max found)) ?_
    rw [survivors_eq_filter follows.plain, follows.stream, filter_filter]
    refine filter_congr fun m _ => ?_
    rw [Bool.and_assoc, Bool.and_comm, Bool.decide_and]
  ascending pid := by
    rw [survivors_eq_filter follows.plain]
    refine List.Pairwise.sublist (filter_sublist.map _) ?_
    rw [map_sequenceNr_marked, follows.numbers]
    exact pairwise_lt_range'
  apart c pid untouched := stream_perform_of_not_touches untouched

theorem stream_law {calls : List JournalCall} (plain : ∀ call ∈ calls, call.Plain) :
    StreamLaw (calls.foldl InMemoryJournal.perform .new) (calls.foldl account []) := by
  suffices follows : Follows (calls.foldl InMemoryJournal.perform .new) (calls.foldl account []) from follows.streamLaw
  induction calls using List.reverseRecOn with
  | nil => exact .new
  | append_singleton calls call ih =>
    rw [forall_mem_append] at plain
    rw [foldl_append, foldl_append]
    exact (ih plain.1).perform (plain.2 call (mem_singleton_self _))

def bareMessage (sequenceNr : Nat) : PersistentRepr := ⟨persistenceId, sequenceNr, [], "", "", false, []⟩

def mixedCalls : List JournalCall :=
  [.write [bareMessage "p" 1, bareMessage "q" 1], .write [bareMessage "p" 2, bareMessage "p" 4], .delete "p" 1,
    .write [bareMessage "p" 3]]

theorem stream_law_mixed :
    (∀ call ∈ mixedCalls, call.Plain) ∧
      StreamLaw (mixedCalls.foldl InMemoryJournal.perform .new) (mixedCalls.foldl account []) ∧
      survivors "p" (mixedCalls.foldl account []) = [bareMessage "p" 2, bareMessage "p" 3] := by
  have plain : ∀ call ∈ mixedCalls, call.Plain := by simp [mixedCalls, JournalCall.Plain, bareMessage]
  exact ⟨plain, stream_law plain, by decide⟩

end Atomr.Persistence
