import Atomr.Persistence.Drivers

/-! Which failed commands leave an entity as it was.

The counter is advanced while events are numbered, before the encoder and the
journal have their say. A command that fails later leaves the counter ahead of
the journal, which then refuses every further command of the entity.
-/

namespace Atomr.Persistence

variable {J Command Event State Err : Type}

/-- The journal in memory takes a batch exactly when the counter is in step with it. -/
theorem persists_iff {journal : InMemoryJournal} {header : Header} {encode : Event → Except String (List UInt8)}
    {start : Nat} {events : List Event} (some : events ≠ []) :
    Persists journal header encode start events ↔
      (∀ event ∈ events, ∃ payload, encode event = .ok payload) ∧ start = journal.highest header.persistenceId := by
  constructor
  · rintro ⟨encodes, accepts⟩
    refine ⟨encodes, ?_⟩
    obtain ⟨reprs, numbered, spec⟩ := number_ok header start encodes
    have accepted := accepts reprs numbered
    cases reprs with
    | nil =>
      have empty := spec.payloads.length_eq
      exact absurd (List.length_eq_zero_iff.mp empty.symm) some
    | cons first rest =>
      -- A counter out of step shows in the number of the first event.
      by_contra gap
      have out : first.sequenceNr ≠ journal.highest first.persistenceId + 1 := by
        rw [spec.head, spec.ids first List.mem_cons_self]
        omega
      have refused := journal.writeMessages_out_of_order first rest out
      cases accepted.symm.trans refused.1
  · rintro ⟨encodes, sync⟩
    refine ⟨encodes, fun reprs numbered => ?_⟩
    obtain ⟨others, same, spec⟩ := number_ok header start encodes
    cases numbered.symm.trans same
    exact (InMemoryJournal.writeMessages_in_order spec.ids spec.numbers sync).1

section Attempt
variable {Memory : Type} {header : Header} {start : Nat} {memory : Memory} {apply : List Event → Memory}
  {batch : Option (List Event × (Event → Except String (List UInt8)))} {fin : Nat} {memory' : Memory}
  {res : Except (EventsourcedError Err) Unit}

def BatchPersists [Journal J] (journal : J) (header : Header) (start : Nat)
    (batch : Option (List Event × (Event → Except String (List UInt8)))) : Prop :=
  ∀ events encode, batch = some (events, encode) → Persists journal header encode start events

/-- What is numbered encodes, and the counter is in step with the journal. -/
def BatchFits (journal : InMemoryJournal) (header : Header) (start : Nat)
    (batch : Option (List Event × (Event → Except String (List UInt8)))) : Prop :=
  ∀ events encode, batch = some (events, encode) → events ≠ [] →
    (∀ event ∈ events, ∃ payload, encode event = .ok payload) ∧ start = journal.highest header.persistenceId

theorem batchPersists_iff {journal : InMemoryJournal} :
    BatchPersists journal header start batch ↔ BatchFits journal header start batch := by
  refine forall₃_congr fun events encode _ => ?_
  by_cases empty : events = []
  · subst empty
    exact iff_of_true ⟨nofun, fun _ numbered => by cases numbered; rfl⟩ fun some => absurd rfl some
  · rw [persists_iff empty, forall_prop_of_true empty]

theorem Attempt.atomic_iff [Journal J] {j journal' : J}
    (attempt : Attempt j header start memory apply batch journal' fin memory' res) :
    (∀ err, res = .error err → memory' = memory ∧ fin = start) ↔ BatchPersists j header start batch := by
  cases attempt with
  | settled => simp [BatchPersists]
  | persisted pers =>
    constructor
    · rintro _ events encode ⟨⟩
      exact pers
    · rintro _ err ⟨⟩
  | failed fails adv =>
    constructor
    -- The counter has moved, so a failed batch is never atomic.
    · intro atomic
      have eq := (atomic _ rfl).2
      omega
    · intro pers
      exact absurd (pers _ _ rfl) fails

theorem Attempt.in_step {j journal' : InMemoryJournal}
    (attempt : Attempt j header start memory apply batch journal' fin memory' res)
    (pers : BatchPersists j header start batch) (sync : start = j.highest header.persistenceId) :
    fin = journal'.highest header.persistenceId := by
  cases attempt with
  | settled => exact sync
  | persisted _ numbered =>
    have written := InMemoryJournal.writeMessages_in_order numbered.ids numbered.numbers sync
    rw [← numbered.payloads.length_eq]
    exact written.2.2.symm
  | failed fails => exact absurd (pers _ _ rfl) fails

end Attempt

/-- A command that returns an error leaves memory and counter as they were exactly
when what it numbers, if anything, encodes and is taken by the journal. The journal in
memory takes it if the counter is in step, and the counter then stays in step. -/
theorem failed_command_atomic_iff {S D C E : Type} [DecidableEq S] [Journal J] (journal : J)
    (inMemory : InMemoryJournal) (entity : Eventsourced Command Event State Err) (state : State) (nextSeq : Nat)
    (writerUuid : String) (cmd : Command) (fsm : PersistentFSM S D C E Err) (input : C)
    (actor : ReceivePersistent S E Err) (event : E) :
    ((∀ error, (entity.handleCommand journal state nextSeq writerUuid cmd).result = .error error →
        (entity.handleCommand journal state nextSeq writerUuid cmd).state = state ∧
        (entity.handleCommand journal state nextSeq writerUuid cmd).nextSeq = nextSeq) ↔
      BatchPersists journal (entity.header writerUuid) nextSeq (entity.batch state cmd)) ∧
    ((∀ error, (fsm.handle journal input).2.2 = .error error →
        (fsm.handle journal input).1.memory = fsm.memory ∧ (fsm.handle journal input).1.nextSeq = fsm.nextSeq) ↔
      BatchPersists journal fsm.header fsm.nextSeq (fsm.batch input)) ∧
    ((∀ error, (actor.handle journal event).2.2 = .error error →
        (actor.handle journal event).1.state = actor.state ∧
        (actor.handle journal event).1.nextSeq = actor.nextSeq) ↔
      BatchPersists journal actor.header actor.nextSeq (actor.batch event)) ∧
    (BatchPersists inMemory (entity.header writerUuid) nextSeq (entity.batch state cmd) →
      nextSeq = inMemory.highest entity.persistenceId →
      (entity.handleCommand inMemory state nextSeq writerUuid cmd).nextSeq =
        (entity.handleCommand inMemory state nextSeq writerUuid cmd).journal.highest entity.persistenceId) ∧
    (BatchPersists inMemory fsm.header fsm.nextSeq (fsm.batch input) →
      fsm.nextSeq = inMemory.highest fsm.persistenceId →
      (fsm.handle inMemory input).1.nextSeq = (fsm.handle inMemory input).2.1.highest fsm.persistenceId) ∧
    (BatchPersists inMemory actor.header actor.nextSeq (actor.batch event) →
      actor.nextSeq = inMemory.highest actor.persistenceId →
      (actor.handle inMemory event).1.nextSeq =
        (actor.handle inMemory event).2.1.highest actor.persistenceId) ∧
    (BatchPersists inMemory (entity.header writerUuid) nextSeq (entity.batch state cmd) ↔
      BatchFits inMemory (entity.header writerUuid) nextSeq (entity.batch state cmd)) ∧
    (BatchPersists inMemory fsm.header fsm.nextSeq (fsm.batch input) ↔
      BatchFits inMemory fsm.header fsm.nextSeq (fsm.batch input)) ∧
    (BatchPersists inMemory actor.header actor.nextSeq (actor.batch event) ↔
      BatchFits inMemory actor.header actor.nextSeq (actor.batch event)) := by
  obtain ⟨_, ofFsm⟩ := fsm.handle_attempt journal input
  obtain ⟨_, ofActor⟩ := actor.handle_attempt journal event
  obtain ⟨_, fsmInMemory⟩ := fsm.handle_attempt inMemory input
  obtain ⟨_, actorInMemory⟩ := actor.handle_attempt inMemory event
  exact ⟨(entity.handleCommand_attempt journal state nextSeq writerUuid cmd).atomic_iff, ofFsm.atomic_iff,
    ofActor.atomic_iff, (entity.handleCommand_attempt inMemory state nextSeq writerUuid cmd).in_step,
    fsmInMemory.in_step, actorInMemory.in_step, batchPersists_iff, batchPersists_iff, batchPersists_iff⟩

def byteLog : Eventsourced (List UInt8) UInt8 (List UInt8) String where
  persistenceId := "log"
  commandToEvents _ cmd := .ok cmd
  applyEvent log byte := log ++ [byte]
  encodeEvent byte := if byte = 255 then .error "reserved byte" else .ok [byte]
  decodeEvent payload := (payload.head?.map Except.ok).getD (.error "empty")

/-- The second event does not encode. The journal stays empty, the counter moves to
two, and the next command, valid by itself, is refused. -/
theorem encode_failure_blocks_entity :
    (byteLog.handleCommand InMemoryJournal.new [] 0 "w" [7, 255]).result = .error (.codec "reserved byte") ∧
    (byteLog.handleCommand InMemoryJournal.new [] 0 "w" [7, 255]).journal.highest "log" = 0 ∧
    (byteLog.handleCommand InMemoryJournal.new [] 0 "w" [7, 255]).nextSeq = 2 ∧
    (byteLog.handleCommand (byteLog.handleCommand InMemoryJournal.new [] 0 "w" [7, 255]).journal [] 2 "w" [7]).result =
      .error (.journal (.sequenceOutOfOrder 1 3)) := by
  refine ⟨by decide, by decide, by decide, by decide⟩

end Atomr.Persistence
