import Atomr.Patterns.GatewayRecovery

/-! What a command that fails leaves behind.

Most failures leave the journal and the cached entity as they were, or as recovery made
it. Two do not: an event that does not encode leaves the counter ahead of the journal,
and a state that violates its invariant has been written and applied by then.
-/

namespace Atomr.Patterns

open Library Persistence

variable {A Id Command Event State Err J S : Type} {root : AggregateRoot A Id Command Event State Err}

section InMemory
variable [SnapshotStore S] {entity post : EntityState A Event State} {journal after' : InMemoryJournal}
  {store : Option S} {permit : Bool} {err : PatternError Err}

theorem recoverEntity_ok (recovery : root.recoverEntity journal store permit entity = (post, .ok ())) :
    post.seq = journal.highest (root.persistenceId post.aggregate) ∧ post.recovered = true := by
  cases permit with
  | false => cases recovery
  | true =>
    simp only [AggregateRoot.recoverEntity, Bool.not_true, Bool.false_eq_true, if_false, Journal.highestSequenceNr]
      at recovery
    split at recovery
    · cases recovery
    · cases recovery
      exact ⟨by rw [root.stable], rfl⟩

theorem recoverEntity_error (recovery : root.recoverEntity journal store permit entity = (post, .error err)) :
    post.recovered = entity.recovered := by
  cases permit with
  | false =>
    cases recovery
    rfl
  | true =>
    simp only [AggregateRoot.recoverEntity, Bool.not_true, Bool.false_eq_true, if_false, Journal.highestSequenceNr]
      at recovery
    split at recovery <;> cases recovery
    rfl

theorem refused_streams {header : Header} {encode : Event → Except String (List UInt8)} {start : Nat}
    {events : List Event} {reprs : List PersistentRepr} (numbered : Numbered header encode start events reprs)
    {refusal : JournalError} (written : Journal.writeMessages journal reprs = (after', .error refusal))
    (pid : String) : after'.stream pid = journal.stream pid := by
  have stored : (journal.writeMessages reprs).1 = after' := congrArg Prod.fst written
  have answer : (journal.writeMessages reprs).2 = .error refusal := congrArg Prod.snd written
  by_cases sync : start = journal.highest header.persistenceId
  · have accepted := InMemoryJournal.writeMessages_in_order numbered.ids numbered.numbers sync
    cases accepted.1.symm.trans answer
  · cases reprs with
    | nil => cases answer
    | cons first rest =>
      have gap : first.sequenceNr ≠ journal.highest first.persistenceId + 1 := by
        rw [numbered.head, numbered.ids first List.mem_cons_self]
        omega
      rw [← stored]
      exact (journal.writeMessages_out_of_order first rest gap).2 pid

end InMemory

namespace CommandGateway

variable [DecidableEq Id] [Inhabited State]

section Effects
variable [Journal J] [SnapshotStore S] (root) (gateway after : CommandGateway A Id Command Event State Err J S)
  (call : Call Command) (error : PatternError Err)

def ready : EntityState A Event State :=
  (gateway.ensureRecovered root call.permit (gateway.held (root.aggregateId call.cmd))).1

/-- The entity is cached as before, or it was not recovered and is as recovery left it. -/
def CacheKept : Prop :=
  let id := root.aggregateId call.cmd
  ((after.held id).state = (gateway.held id).state ∧ (after.held id).seq = (gateway.held id).seq) ∨
    (gateway.held id).recovered = false ∧ after.held id = gateway.ready root call

/-- The journal refused the batch. -/
def Refused : Prop :=
  ∃ refusal events reprs, error = .journal refusal ∧ Batch root gateway (gateway.ready root call) call events reprs ∧
    Journal.writeMessages gateway.journal reprs = (after.journal, .error refusal) ∧ CacheKept root gateway after call

/-- An event of the command did not encode. -/
def Unencoded : Prop :=
  let entity := gateway.ready root call
  ∃ message events, error = .codec message ∧
    root.commandToEvents entity.aggregate entity.state call.cmd = .ok events ∧
    ∃ event ∈ events, ∀ payload, root.encodeEvent event ≠ .ok payload

/-- The batch was written and applied, and the state then failed its check. -/
def Violated : Prop :=
  let entity := gateway.ready root call
  ∃ (rejection : Err) (events : List Event) (reprs : List PersistentRepr), error = .domain rejection ∧
    Batch root gateway entity call events reprs ∧
    root.checkInvariants (applied root entity events).state = .error rejection ∧
    Journal.writeMessages gateway.journal reprs = (after.journal, .ok ()) ∧
    after.held (root.aggregateId call.cmd) = applied root entity events

end Effects

section AnyJournal
variable [Journal J] [SnapshotStore S] {gateway after : CommandGateway A Id Command Event State Err J S}
  {call : Call Command} {err : PatternError Err}

theorem cacheKept_of_ready (kept : after.held (root.aggregateId call.cmd) = gateway.ready root call) :
    CacheKept root gateway after call := by
  cases recovered : (gateway.held (root.aggregateId call.cmd)).recovered with
  | true => exact .inl (by simp [kept, ready, ensureRecovered, recovered])
  | false => exact .inr ⟨recovered, kept⟩

theorem failed_effect (failed : (gateway.process root call).2 = .error err) :
    ((gateway.process root call).1.journal = gateway.journal ∧
        CacheKept root gateway (gateway.process root call).1 call) ∨
      Refused root gateway (gateway.process root call).1 call err ∨
      Unencoded root gateway call err ∨
      Violated root gateway (gateway.process root call).1 call err := by
  have processed := gateway.process_processed root call
  generalize gateway.process root call = outcome at processed failed
  obtain ⟨post, res⟩ := outcome
  simp only at processed failed ⊢
  subst failed
  cases processed with
  | intercepted => exact .inl ⟨rfl, .inl ⟨rfl, rfl⟩⟩
  | unrecovered ensured =>
    exact .inl ⟨rfl, cacheKept_of_ready (by rw [held_put, if_pos rfl, ready, ensured])⟩
  | @executed entity outcome post _ ensured executed =>
    have isReady : gateway.ready root call = entity := by rw [ready, ensured]
    have cached : (post.put (root.aggregateId call.cmd) outcome).held (root.aggregateId call.cmd) = outcome := by
      rw [held_put, if_pos rfl]
    cases executed with
    | refused => exact .inl ⟨rfl, cacheKept_of_ready (cached.trans isReady.symm)⟩
    | unencoded derived unencodable _ =>
      exact .inr (.inr (.inl ⟨_, _, rfl, isReady ▸ derived, unencodable⟩))
    | unwritten batch written =>
      exact .inr (.inl ⟨_, _, _, rfl, isReady ▸ batch, written, cacheKept_of_ready (cached.trans isReady.symm)⟩)
    | violated batch written checked =>
      rw [← isReady] at batch checked
      exact .inr (.inr (.inr ⟨_, _, _, rfl, batch, checked, written, by rw [cached, isReady]⟩))

end AnyJournal

section InMemory
variable [SnapshotStore S] (root) in
/-- The next command of an id, if it is run, is numbered on from the highest stored number. -/
def InStep (gateway : CommandGateway A Id Command Event State Err InMemoryJournal S) (id : Id) : Prop :=
  ∀ entity, gateway.ensureRecovered root true (gateway.held id) = (entity, .ok ()) →
    entity.seq = gateway.journal.highest (root.persistenceId entity.aggregate)

variable [SnapshotStore S] {gateway : CommandGateway A Id Command Event State Err InMemoryJournal S}
  {call : Call Command} {err : PatternError Err} {id : Id} {entity after : EntityState A Event State}

theorem InStep.ensured (inStep : InStep root gateway id) {permit : Bool}
    (ensured : gateway.ensureRecovered root permit (gateway.held id) = (entity, .ok ())) :
    entity.seq = gateway.journal.highest (root.persistenceId entity.aggregate) ∧ entity.recovered = true := by
  cases recovered : (gateway.held id).recovered with
  | true =>
    have cached : gateway.ensureRecovered root true (gateway.held id) = (gateway.held id, .ok ()) := by
      simp [ensureRecovered, recovered]
    simp only [ensureRecovered, recovered] at ensured
    cases ensured
    exact ⟨inStep _ cached, recovered⟩
  | false =>
    simp only [ensureRecovered, recovered] at ensured
    exact recoverEntity_ok ensured

theorem inStep_put (recovered : entity.recovered = true)
    (sync : entity.seq = gateway.journal.highest (root.persistenceId entity.aggregate)) :
    InStep root (gateway.put id entity) id := by
  intro other ensured
  rw [held_put, if_pos rfl, ensureRecovered, if_pos recovered] at ensured
  cases ensured
  exact sync

theorem inStep_put_unrecovered (lazily : entity.recovered = false) : InStep root (gateway.put id entity) id := by
  intro other ensured
  simp only [held_put, if_true, ensureRecovered, lazily, Bool.false_eq_true, if_false] at ensured
  exact (recoverEntity_ok ensured).1

theorem failed_in_step (failed : (gateway.process root call).2 = .error err) :
    (∀ refusal, err = .journal refusal → ∀ pid,
      (gateway.process root call).1.journal.stream pid = gateway.journal.stream pid) ∧
    (InStep root gateway (root.aggregateId call.cmd) →
      InStep root (gateway.process root call).1 (root.aggregateId call.cmd) ∨
        Unencoded root gateway call err) := by
  have processed := gateway.process_processed root call
  generalize gateway.process root call = outcome at processed failed
  obtain ⟨post, res⟩ := outcome
  subst failed
  cases processed with
  | intercepted => exact ⟨fun _ _ _ => rfl, .inl⟩
  | @unrecovered entity _ ensured =>
    refine ⟨fun _ _ _ => rfl, fun inStep => .inl ?_⟩
    cases recovered : (gateway.held (root.aggregateId call.cmd)).recovered with
    | true =>
      simp only [ensureRecovered, recovered] at ensured
      cases ensured
    | false =>
      simp only [ensureRecovered, recovered] at ensured
      exact inStep_put_unrecovered ((recoverEntity_error ensured).trans recovered)
  | @executed entity outcome post _ ensured executed =>
    cases executed with
    | refused =>
      refine ⟨fun _ _ _ => rfl, fun inStep => .inl ?_⟩
      obtain ⟨sync, recovered⟩ := inStep.ensured ensured
      exact inStep_put recovered sync
    | unencoded derived unencodable _ =>
      have isReady : gateway.ready root call = entity := by rw [ready, ensured]
      exact ⟨fun _ _ _ => rfl, fun _ => .inr ⟨_, _, rfl, isReady ▸ derived, unencodable⟩⟩
    | unwritten batch written =>
      have streams := refused_streams batch.2 written
      refine ⟨fun _ _ => streams, fun inStep => .inl ?_⟩
      obtain ⟨sync, recovered⟩ := inStep.ensured ensured
      refine inStep_put recovered ?_
      rw [sync]
      simp only [InMemoryJournal.highest, streams]
    | @violated events reprs journal _ batch written _ =>
      refine ⟨fun _ isJournal => (by cases isJournal), fun inStep => .inl ?_⟩
      obtain ⟨sync, recovered⟩ := inStep.ensured ensured
      cases (congrArg Prod.fst written : (gateway.journal.writeMessages reprs).1 = journal)
      refine inStep_put recovered ?_
      rw [applied, ← batch.2.payloads.length_eq]
      exact (InMemoryJournal.writeMessages_in_order batch.2.ids batch.2.numbers sync).2.2.symm

end InMemory

/-- A failed command leaves the journal and its entity as they were or as recovery made
the entity, unless an event did not encode or the written state violates its invariant.
In the journal in memory a refused batch changes no stream, and numbering stays in step
unless an event did not encode. -/
theorem failed_process_effects [Journal J] [SnapshotStore S]
    (root : AggregateRoot A Id Command Event State Err) (gateway : CommandGateway A Id Command Event State Err J S)
    (inMemory : CommandGateway A Id Command Event State Err InMemoryJournal S) (call : Call Command)
    (error : PatternError Err) :
    ((gateway.process root call).2 = .error error →
      ((gateway.process root call).1.journal = gateway.journal ∧
          CacheKept root gateway (gateway.process root call).1 call) ∨
        Refused root gateway (gateway.process root call).1 call error ∨
        Unencoded root gateway call error ∨
        Violated root gateway (gateway.process root call).1 call error) ∧
    ((inMemory.process root call).2 = .error error →
      (∀ refusal, error = .journal refusal → ∀ persistenceId,
        (inMemory.process root call).1.journal.stream persistenceId = inMemory.journal.stream persistenceId) ∧
      (InStep root inMemory (root.aggregateId call.cmd) →
        InStep root (inMemory.process root call).1 (root.aggregateId call.cmd) ∨
          Unencoded root inMemory call error)) :=
  ⟨failed_effect, failed_in_step⟩

end CommandGateway

def threeBookings : Call (Bool × List UInt8) := ⟨(true, [1, 2, 3]), true, 0⟩

theorem failed_process_effects_rejected :
    (accounts.process account threeBookings).2 = .error (.domain "too many") ∧
      (accounts.process account threeBookings).1.journal = accounts.journal ∧
      CommandGateway.CacheKept account accounts (accounts.process account threeBookings).1 threeBookings ∧
      CommandGateway.InStep account (accounts.process account threeBookings).1 true := by
  have failed : (accounts.process account threeBookings).2 = .error (.domain "too many") := rfl
  have effects := CommandGateway.failed_process_effects account accounts accounts threeBookings (.domain "too many")
  have fresh : CommandGateway.InStep account accounts true := by
    rintro entity ⟨⟩
    rfl
  obtain ⟨journal, kept⟩ | ⟨_, _, _, other, _⟩ | ⟨_, _, other, _⟩ | ⟨_, _, _, _, ⟨derived, _⟩, _⟩ := effects.1 failed
  · obtain inStep | ⟨_, _, other, _⟩ := (effects.2 failed).2 fresh
    · exact ⟨failed, journal, kept, inStep⟩
    · cases other
  · cases other
  · cases other
  · cases derived

/-- A balance over the limit has been written; an event that does not encode leaves the
counter ahead, and the next command is refused; and a rejected command fills the cache
of an entity that was not recovered. -/
theorem failed_commands_change_gateway :
    ((accounts.process account ⟨(true, [8, 8]), true, 0⟩).2 = .error (.domain "over the limit") ∧
      accounts.journal.highest "a" = 0 ∧
      (accounts.process account ⟨(true, [8, 8]), true, 0⟩).1.journal.highest "a" = 2) ∧
    ((accounts.process account ⟨(true, [7, 255]), true, 0⟩).2 = .error (.codec "reserved byte") ∧
      (accounts.process account ⟨(true, [7, 255]), true, 0⟩).1.journal.highest "a" = 0 ∧
      ((accounts.process account ⟨(true, [7, 255]), true, 0⟩).1.held true).seq = 2 ∧
      ((accounts.process account ⟨(true, [7, 255]), true, 0⟩).1.process account ⟨(true, [7]), true, 0⟩).2 =
        .error (.journal (.sequenceOutOfOrder 1 3))) ∧
    (((accounts.process account ⟨(true, [1, 2]), true, 0⟩).1.restart.held true).seq = 0 ∧
      ((accounts.process account ⟨(true, [1, 2]), true, 0⟩).1.restart.process account threeBookings).2 =
        .error (.domain "too many") ∧
      (((accounts.process account ⟨(true, [1, 2]), true, 0⟩).1.restart.process account threeBookings).1.held true).seq =
        2) := by
  refine ⟨⟨rfl, rfl, rfl⟩, ⟨rfl, rfl, rfl, rfl⟩, rfl, rfl, rfl⟩

end Atomr.Patterns
