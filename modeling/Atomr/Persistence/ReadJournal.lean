import Atomr.Library.Cursor
import Atomr.Persistence.LatestMessage

/-! What the readers of a journal see: a log of streams that only grow.

The numbers of a stream increase and stay below the largest 64-bit number, so that the
number after an offset never saturates. The journals number a stream without gaps from one,
and a stream is a vector, which is shorter than that. The read journal over the journal in
memory serves such a log.
-/

namespace Atomr.Persistence

open Library List

structure EventEnvelope where
  persistenceId : String
  sequenceNr : Nat
  payload : List UInt8
  tags : List String
  manifest : String
  deriving DecidableEq, Repr

structure EventLog where
  streams : Table String (List EventEnvelope)
  increasing : ∀ persistenceId,
    Cursor.Increasing EventEnvelope.sequenceNr ((streams.lookup persistenceId).getD [])
  ids : ∀ persistenceId, ∀ env ∈ (streams.lookup persistenceId).getD [], env.persistenceId = persistenceId
  numbers : ∀ persistenceId, ∀ env ∈ (streams.lookup persistenceId).getD [],
    0 < env.sequenceNr ∧ env.sequenceNr < 2 ^ 64 - 1

namespace EventLog

variable (log : EventLog) (persistenceId : String)

def stream : List EventEnvelope := (log.streams.lookup persistenceId).getD []

def empty : EventLog := ⟨∅, by simp [Cursor.Increasing], by simp, by simp⟩

theorem stream_upsert (env : EventEnvelope) (pid : String) :
    ((log.streams.upsert env.persistenceId fun h => h.getD [] ++ [env]).lookup pid).getD [] =
      if pid = env.persistenceId then log.stream pid ++ [env] else log.stream pid := by
  rw [Table.lookup_upsert_if]
  split
  next eq => rw [eq, Option.getD_some, stream]
  · rfl

theorem mem_keys (log : EventLog) {env : EventEnvelope} {pid : String}
    (mem : env ∈ log.stream pid) : pid ∈ log.streams.keys := by
  by_contra ha
  rw [stream, AList.lookup_eq_none.mpr fun known => ha (AList.mem_keys.mp known)] at mem
  cases mem

/-- A listing has every id with events, and none twice. -/
def Lists (listed : List String) : Prop :=
  listed.Nodup ∧ ∀ persistenceId ∈ log.streams.keys, log.stream persistenceId ≠ [] → persistenceId ∈ listed
deriving Decidable

theorem Lists.stream_eq_nil {log : EventLog} {listed : List String} {pid : String}
    (lists : log.Lists listed) (ha : pid ∉ listed) : log.stream pid = [] := by
  by_contra events
  obtain ⟨env, mem⟩ := exists_mem_of_ne_nil _ events
  exact ha (lists.2 pid (log.mem_keys mem) events)

def append (env : EventEnvelope) : Option EventLog :=
  if next : (∀ held ∈ log.stream env.persistenceId, held.sequenceNr < env.sequenceNr) ∧
      0 < env.sequenceNr ∧ env.sequenceNr < 2 ^ 64 - 1 then
    some {
      streams := log.streams.upsert env.persistenceId fun held => held.getD [] ++ [env]
      increasing := fun persistenceId => by
        rw [stream_upsert]
        split
        next same =>
          refine List.pairwise_append.mpr ⟨log.increasing persistenceId, List.pairwise_singleton _ _, ?_⟩
          rintro held member other isNew
          cases List.mem_singleton.mp isNew
          exact next.1 held (same ▸ member)
        · exact log.increasing persistenceId
      ids := fun persistenceId held member => by
        rw [stream_upsert] at member
        split at member
        next same =>
          rcases List.mem_append.mp member with old | isNew
          · exact log.ids persistenceId held old
          · rw [List.mem_singleton.mp isNew, same]
        · exact log.ids persistenceId held member
      numbers := fun persistenceId held member => by
        rw [stream_upsert] at member
        split at member
        · rcases List.mem_append.mp member with old | isNew
          · exact log.numbers persistenceId held old
          · rw [List.mem_singleton.mp isNew]
            exact next.2
        · exact log.numbers persistenceId held member }
  else none

theorem append_eq_some {log : EventLog} {env : EventEnvelope}
    (later : ∀ h ∈ log.stream env.persistenceId, h.sequenceNr < env.sequenceNr) (pos : 0 < env.sequenceNr)
    (bound : env.sequenceNr < 2 ^ 64 - 1) : ∃ post, log.append env = some post := by
  unfold append
  rw [dif_pos ⟨later, pos, bound⟩]
  exact ⟨_, rfl⟩

theorem stream_append {log post : EventLog} {env : EventEnvelope} (app : log.append env = some post)
    (pid : String) :
    post.stream pid =
      if pid = env.persistenceId then log.stream pid ++ [env] else log.stream pid := by
  unfold append at app
  split at app
  · cases app
    exact log.stream_upsert env pid
  · cases app

theorem append_later {log post : EventLog} {env : EventEnvelope} (app : log.append env = some post) :
    (∀ h ∈ log.stream env.persistenceId, h.sequenceNr < env.sequenceNr) ∧ 0 < env.sequenceNr := by
  unfold append at app
  split at app
  next next => exact ⟨next.1, next.2.1⟩
  · cases app

def upTo (log : EventLog) (persistenceId : String) (offset : Nat) : List EventEnvelope :=
  Cursor.upTo EventEnvelope.sequenceNr offset (log.stream persistenceId)

def Within (offset : Nat) : Prop := offset = 0 ∨ ∃ env ∈ log.stream persistenceId, env.sequenceNr = offset

def Buffered (offset : Nat) (events : List EventEnvelope) : Prop :=
  ∃ later, Cursor.beyond EventEnvelope.sequenceNr offset (log.stream persistenceId) = events ++ later

theorem Within.append {log post : EventLog} {env : EventEnvelope} {pid : String} {off : Nat}
    (within : log.Within pid off) (app : log.append env = some post) :
    post.Within pid off ∧ post.upTo pid off = log.upTo pid off ∧
      ∀ events, log.Buffered pid off events → post.Buffered pid off events := by
  obtain ⟨largest, pos⟩ := append_later app
  have streams := stream_append app pid
  unfold Within upTo Buffered
  split at streams
  next own =>
    subst own
    have unread : off < env.sequenceNr := by
      rcases within with rfl | ⟨h, hp, rfl⟩
      · exact pos
      · exact largest h hp
    rw [streams]
    refine ⟨within.imp id fun ⟨h, hp, num⟩ => ⟨h, mem_append_left _ hp, num⟩,
      Cursor.upTo_snoc unread, fun events ⟨later, next⟩ => ⟨later ++ [env], ?_⟩⟩
    rw [Cursor.beyond_snoc unread, next, append_assoc]
  · rw [streams]
    exact ⟨within, rfl, fun _ => id⟩

section Next

variable {log : EventLog} {env : EventEnvelope} {events : List EventEnvelope} {pid : String} {off : Nat}
  (buf : log.Buffered pid off (env :: events))

include buf

theorem Buffered.next :
    env ∈ log.stream pid ∧ env.persistenceId = pid ∧ off < env.sequenceNr := by
  obtain ⟨later, next⟩ := buf
  have first : env ∈ Cursor.beyond EventEnvelope.sequenceNr off (log.stream pid) := next ▸ mem_cons_self
  obtain ⟨hp, unread⟩ := Cursor.mem_beyond.mp first
  exact ⟨hp, log.ids pid env hp, unread⟩

/-- When the offset moves over the next event, that event is read and no other. -/
theorem Buffered.advance : log.upTo pid env.sequenceNr = log.upTo pid off ++ [env] ∧
    log.Within pid env.sequenceNr ∧ log.Buffered pid env.sequenceNr events := by
  have hp := buf.next.1
  obtain ⟨later, next⟩ := buf
  obtain ⟨read, left⟩ := Cursor.advance (log.increasing pid) next
  exact ⟨read, .inr ⟨env, hp, rfl⟩, later, left⟩

end Next

theorem mem_stream_append {log post : EventLog} {env h : EventEnvelope} {pid : String}
    (app : log.append env = some post) (mem : h ∈ post.stream pid) :
    h ∈ log.stream pid ∨ h = env := by
  rw [stream_append app] at mem
  split at mem
  · exact (mem_append.mp mem).imp id mem_singleton.mp
  · exact .inl mem

def eventsByPersistenceId (first last : Nat) : List EventEnvelope :=
  (log.stream persistenceId).filter fun env => first ≤ env.sequenceNr ∧ env.sequenceNr ≤ last

/-- The number after an offset, and at most the largest. -/
def after (offset : Nat) : Nat := min (offset + 1) (2 ^ 64 - 1)

/-- Reading on from an offset gives what comes next. -/
theorem buffered_after (off : Nat) :
    log.Buffered persistenceId off (log.eventsByPersistenceId persistenceId (after off) (2 ^ 64 - 1)) := by
  refine ⟨[], ?_⟩
  rw [append_nil]
  refine filter_congr fun env mem => ?_
  have bound := (log.numbers persistenceId env mem).2
  have range : after off ≤ env.sequenceNr ∧ env.sequenceNr ≤ 2 ^ 64 - 1 ↔ off < env.sequenceNr := by
    unfold after
    omega
  simp only [range]

theorem eventsByPersistenceId_all :
    log.eventsByPersistenceId persistenceId 1 (2 ^ 64 - 1) = log.stream persistenceId := by
  refine filter_eq_self.mpr fun env mem => ?_
  have bound := log.numbers persistenceId env mem
  simp only [decide_eq_true_eq]
  omega

end EventLog

def offsetOf (offsets : Table String Nat) (persistenceId : String) : Nat := (offsets.lookup persistenceId).getD 0

theorem offsetOf_insert (offsets : Table String Nat) (pid : String) (off : Nat) (other : String) :
    offsetOf (offsets.insert pid off) other =
      if other = pid then off else offsetOf offsets other := by
  unfold offsetOf
  rw [Table.lookup_insert_if]
  split <;> rfl

def EventEnvelope.ofRepr (repr : PersistentRepr) : EventEnvelope :=
  ⟨repr.persistenceId, repr.sequenceNr, repr.payload, repr.tags, repr.manifest⟩

namespace SimpleReadJournal

def eventsByPersistenceId {J : Type} [Journal J] (journal : J) (persistenceId : String) (first last : Nat) :
    Except JournalError (List EventEnvelope) :=
  (Journal.replayMessages journal persistenceId first last (2 ^ 64 - 1)).map (List.map EventEnvelope.ofRepr)

def allPersistenceIds (journal : InMemoryJournal) : List String := journal.streams.keys

end SimpleReadJournal

/-- The messages of a stream, numbered from one, and the events among them that are not deleted. -/
structure StreamHolds (persistenceId : String) (reprs : List PersistentRepr) (events : List EventEnvelope) : Prop where
  ids : ∀ repr ∈ reprs, repr.persistenceId = persistenceId
  numbers : reprs.map PersistentRepr.sequenceNr = List.range' 1 reprs.length
  short : reprs.length < 2 ^ 64 - 1
  events : events = (reprs.filter fun repr => !repr.deleted).map EventEnvelope.ofRepr

namespace StreamHolds

variable {pid : String} {reprs : List PersistentRepr} {events : List EventEnvelope}

theorem nil : StreamHolds pid [] [] := ⟨nofun, rfl, by decide, rfl⟩

variable (holds : StreamHolds pid reprs events)
include holds

theorem number_le {env : EventEnvelope} (mem : env ∈ events) : env.sequenceNr ≤ reprs.length := by
  rw [holds.events] at mem
  obtain ⟨repr, h, rfl⟩ := mem_map.mp mem
  have num : repr.sequenceNr ∈ List.range' 1 reprs.length := holds.numbers ▸ mem_map_of_mem (mem_filter.mp h).1
  rw [mem_range'_1] at num
  show repr.sequenceNr ≤ reprs.length
  omega

theorem expected : InMemoryJournal.expected reprs = reprs.length + 1 := NumberedStream.expected holds.numbers

theorem snoc {m : PersistentRepr} (own : m.persistenceId = pid)
    (num : m.sequenceNr = reprs.length + 1) (room : reprs.length + 1 < 2 ^ 64 - 1) :
    StreamHolds pid (reprs ++ [m])
      (events ++ ([m].filter fun repr => !repr.deleted).map EventEnvelope.ofRepr) where
  ids := forall_mem_append.mpr ⟨holds.ids, by simpa using own⟩
  numbers := by
    rw [map_append, holds.numbers, length_append, length_singleton, List.range'_1_concat,
      map_singleton, num, Nat.add_comm 1]
  short := by simpa using room
  events := by rw [holds.events, filter_append, map_append]

theorem filter_range (first last : Nat) :
    ((reprs.filter fun repr => !repr.deleted && repr.sequenceNr ≥ first && repr.sequenceNr ≤ last).take
        (2 ^ 64 - 1)).map EventEnvelope.ofRepr =
      events.filter fun env => first ≤ env.sequenceNr ∧ env.sequenceNr ≤ last := by
  have room := Nat.le_trans (length_filter_le
    (fun repr => !repr.deleted && repr.sequenceNr ≥ first && repr.sequenceNr ≤ last) reprs) (Nat.le_of_lt holds.short)
  rw [take_of_length_le room, holds.events, filter_map, filter_filter]
  refine congrArg _ (filter_congr fun repr _ => Bool.eq_iff_iff.mpr ?_)
  simp only [Function.comp_apply, EventEnvelope.ofRepr, Bool.and_eq_true, decide_eq_true_eq]
  exact ⟨fun ⟨⟨kept, low⟩, high⟩ => ⟨decide_eq_true ⟨low, high⟩, kept⟩,
    fun ⟨range, kept⟩ => ⟨⟨kept, (of_decide_eq_true range).1⟩, (of_decide_eq_true range).2⟩⟩

end StreamHolds

/-- The journal holds the events of the log. -/
def Serves (journal : InMemoryJournal) (log : EventLog) : Prop :=
  ∀ persistenceId, StreamHolds persistenceId (journal.stream persistenceId) (log.stream persistenceId)

/-- The readers see the log. -/
def Reads (journal : InMemoryJournal) (log : EventLog) : Prop :=
  log.Lists (SimpleReadJournal.allPersistenceIds journal) ∧ ∀ persistenceId first last,
    SimpleReadJournal.eventsByPersistenceId journal persistenceId first last =
      .ok (log.eventsByPersistenceId persistenceId first last)

/-- A batch is taken up to the first message that is out of order, and is refused if there is one. The log grows by
what is taken, without the messages that are written as deleted. -/
structure Grows (journal : InMemoryJournal) (log : EventLog) (batch taken : List PersistentRepr) (next : EventLog) :
    Prop where
  part : taken <+: batch
  answer : (journal.writeMessages batch).2 = .ok () ↔ taken = batch
  stopped : ∀ msg rest, batch = taken ++ msg :: rest →
    msg.sequenceNr ≠ (journal.writeMessages taken).1.highest msg.persistenceId + 1
  appended : ((taken.filter fun msg => !msg.deleted).map EventEnvelope.ofRepr).foldlM EventLog.append log = some next

namespace Serves

variable {journal : InMemoryJournal} {log : EventLog}

theorem new : Serves .new .empty := fun _ => .nil

variable (serves : Serves journal log)
include serves

theorem reads : Reads journal log := by
  refine ⟨⟨journal.streams.keys_nodup, fun pid _ events => ?_⟩, fun pid first last =>
    congrArg Except.ok ((serves pid).filter_range first last)⟩
  by_contra absent
  have empty : journal.stream pid = [] := by
    rw [InMemoryJournal.stream, AList.lookup_eq_none.mpr (mt AList.mem_keys.mp absent), Option.getD_none]
  rw [(serves pid).events, empty] at events
  exact events rfl

theorem insert {next : EventLog} {pid : String} {entry : List PersistentRepr}
    (own : StreamHolds pid entry (next.stream pid)) (others : ∀ other, other ≠ pid → next.stream other = log.stream other) :
    Serves ⟨journal.streams.insert pid entry⟩ next := by
  intro other
  rw [journal.stream_insert]
  split
  next same => exact same ▸ own
  next ne => exact others other ne ▸ serves other

/-- An accepted message extends the log, unless it is written as deleted. -/
theorem store {msg : PersistentRepr}
    (accepted : msg.sequenceNr = InMemoryJournal.expected (journal.stream msg.persistenceId))
    (room : (journal.stream msg.persistenceId).length + 1 < 2 ^ 64 - 1) :
    ∃ next, (([msg].filter fun msg => !msg.deleted).map EventEnvelope.ofRepr).foldlM EventLog.append log = some next ∧
      Serves ⟨journal.streams.insert msg.persistenceId (journal.stream msg.persistenceId ++ [msg])⟩ next := by
  have holds := serves msg.persistenceId
  rw [holds.expected] at accepted
  have extended := holds.snoc rfl accepted room
  cases deleted : msg.deleted with
  | true =>
    rw [filter_cons_of_neg (by simp [deleted]), filter_nil, map_nil] at extended ⊢
    rw [append_nil] at extended
    exact ⟨log, rfl, serves.insert extended fun _ _ => rfl⟩
  | false =>
    rw [filter_cons_of_pos (by simp [deleted]), filter_nil, map_singleton] at extended ⊢
    have later : ∀ held ∈ log.stream msg.persistenceId, held.sequenceNr < msg.sequenceNr :=
      fun held mem => accepted ▸ Nat.lt_succ_of_le (holds.number_le mem)
    obtain ⟨next, appended⟩ : ∃ next, log.append (.ofRepr msg) = some next :=
      EventLog.append_eq_some later (show 0 < msg.sequenceNr by omega) (show msg.sequenceNr < _ by omega)
    have streams : ∀ other, next.stream other =
        if other = msg.persistenceId then log.stream other ++ [.ofRepr msg] else log.stream other :=
      EventLog.stream_append appended
    refine ⟨next, by simp [appended], serves.insert ?_ fun other ne => ?_⟩
    · rw [streams, if_pos rfl]
      exact extended
    · rw [streams, if_neg ne]
omit serves

theorem writeMessages (batch : List PersistentRepr) {journal : InMemoryJournal} {log : EventLog}
    (serves : Serves journal log) (room : ∀ pid, (journal.stream pid).length + batch.length < 2 ^ 64 - 1) :
    ∃ taken next, Grows journal log batch taken next ∧ Serves (journal.writeMessages batch).1 next := by
  induction batch generalizing journal log with
  | nil => exact ⟨[], log, ⟨prefix_rfl, iff_of_true rfl rfl, nofun, rfl⟩, serves⟩
  | cons msg rest ih =>
    by_cases accepted : msg.sequenceNr = InMemoryJournal.expected (journal.stream msg.persistenceId)
    · have write (msgs : List PersistentRepr) : journal.writeMessages (msg :: msgs) = InMemoryJournal.writeMessages
          ⟨journal.streams.insert msg.persistenceId (journal.stream msg.persistenceId ++ [msg])⟩ msgs :=
        if_neg (not_not.mpr accepted)
      simp only [length_cons] at room
      obtain ⟨middle, first, serves'⟩ := serves.store accepted (by grind)
      obtain ⟨taken, next, grows, served⟩ := ih serves' fun pid => by
        have space := room pid
        rw [journal.stream_insert]
        split
        next => grind
        · omega
      refine ⟨msg :: taken, next, ⟨cons_prefix_cons.mpr ⟨rfl, grows.part⟩, ?_, ?_, ?_⟩, write rest ▸ served⟩
      · rw [write, grows.answer, List.cons.injEq, and_iff_right rfl]
      · intro other later same
        rw [write]
        exact grows.stopped other later (List.cons.inj same).2
      · rw [← singleton_append, filter_append, map_append, foldlM_append, first]
        exact grows.appended
    · have refused : journal.writeMessages (msg :: rest) = _ := if_pos accepted
      refine ⟨[], log, ⟨List.nil_prefix, ?_, ?_, rfl⟩, ?_⟩
      · rw [refused]
        exact iff_of_false nofun nofun
      · rintro other later ⟨⟩
        rwa [InMemoryJournal.expected_stream] at accepted
      · rw [refused]
        exact serves.insert (serves msg.persistenceId) fun _ _ => rfl

theorem length_stream_writeMessages (batch : List PersistentRepr) (journal : InMemoryJournal) (pid : String) :
    ((journal.writeMessages batch).1.stream pid).length ≤ (journal.stream pid).length + batch.length := by
  induction batch generalizing journal with
  | nil => exact Nat.le_refl _
  | cons msg rest ih =>
    unfold InMemoryJournal.writeMessages
    simp only
    split
    · rw [journal.stream_insert]
      split <;> simp_all
    · refine Nat.le_trans (ih _) ?_
      rw [journal.stream_insert]
      split <;> simp_all
      omega

theorem run (earlier : List (List PersistentRepr)) (more : Nat) {journal : InMemoryJournal} {log : EventLog}
    (serves : Serves journal log)
    (room : ∀ pid, (journal.stream pid).length + earlier.flatten.length + more < 2 ^ 64 - 1) :
    ∃ next, Serves (earlier.foldl (fun journal batch => (journal.writeMessages batch).1) journal) next ∧
      ∀ pid, ((earlier.foldl (fun journal batch => (journal.writeMessages batch).1) journal).stream pid).length + more <
        2 ^ 64 - 1 := by
  induction earlier generalizing journal log with
  | nil => exact ⟨log, serves, room⟩
  | cons batch rest ih =>
    simp only [flatten_cons, length_append] at room
    obtain ⟨-, next, -, served⟩ := serves.writeMessages batch fun pid => by grind
    exact ih served fun pid => by grind [length_stream_writeMessages batch journal pid]

end Serves

/-- After any batches the readers see a log, and the next batch makes it grow by the messages that are taken. -/
theorem journal_serves_log (earlier : List (List PersistentRepr)) (batch : List PersistentRepr)
    (room : earlier.flatten.length + batch.length < 2 ^ 64 - 1) :
    let journal := earlier.foldl (fun journal batch => (journal.writeMessages batch).1) InMemoryJournal.new
    ∃ log taken next, Reads journal log ∧ Grows journal log batch taken next ∧
      Reads (journal.writeMessages batch).1 next := by
  obtain ⟨log, serves, space⟩ := Serves.new.run earlier batch.length fun _ => by
    simpa [InMemoryJournal.new, InMemoryJournal.stream] using room
  obtain ⟨taken, next, grows, served⟩ := serves.writeMessages batch space
  exact ⟨log, taken, next, serves.reads, grows, served.reads⟩

/-- The second batch is refused as a whole and the third after its first message. -/
theorem journal_serves_log_refused :
    let message number : PersistentRepr := ⟨"p", number, [7], "", "", false, []⟩
    let journal := [[message 1], [message 3]].foldl (fun journal batch => (journal.writeMessages batch).1) InMemoryJournal.new
    ∃ log next, Reads journal log ∧ log.append (.ofRepr (message 2)) = some next ∧
      Reads (journal.writeMessages [message 2, message 4]).1 next := by
  intro message journal
  obtain ⟨log, taken, next, reads, grows, served⟩ :=
    journal_serves_log [[message 1], [message 3]] [message 2, message 4] (by decide)
  have refused : taken ≠ [message 2, message 4] := mt grows.answer.mpr (by decide +kernel)
  obtain rfl | ⟨later, rfl, part⟩ := prefix_cons_iff.mp grows.part
  · exact absurd (by decide +kernel) (grows.stopped (message 2) _ rfl)
  · obtain rfl | ⟨last, rfl, empty⟩ := prefix_cons_iff.mp part
    · exact ⟨log, next, reads, by simpa [message] using grows.appended, served⟩
    · cases prefix_nil.mp empty
      exact absurd rfl refused

end Atomr.Persistence
