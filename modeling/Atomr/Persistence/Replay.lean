import Atomr.Library.Runs
import Atomr.Persistence.Drivers

/-! Recovery rebuilds the live state of an entity from the journal in memory. -/

namespace Atomr.Persistence

open Library List

variable {Command Event State Err : Type}

structure Live (State : Type) where
  journal : InMemoryJournal
  state : State
  nextSeq : Nat

namespace Eventsourced

variable (entity : Eventsourced Command Event State Err)

/-- One command with its writer: it succeeds or the domain rejects it. -/
def step (live : Live State) (cmd : String × Command) : Option (Live State) :=
  let outcome := entity.handleCommand live.journal live.state live.nextSeq cmd.1 cmd.2
  match outcome.result with
  | .ok () | .error (.domain _) => some ⟨outcome.journal, outcome.state, outcome.nextSeq⟩
  | _ => none

variable {entity} in
theorem replay_eq (state : State) {reprs : List PersistentRepr} {events : List Event}
    (payloads : List.Forall₂ (fun repr event => entity.decodeEvent repr.payload = .ok event) reprs events) :
    replay entity.decodeEvent entity.applyEvent state reprs = (events.foldl entity.applyEvent state, .ok ()) := by
  induction payloads generalizing state with
  | nil => rfl
  | cons decoded _ ih => simp only [replay, decoded, ih, foldl_cons]

variable [Inhabited State]

/-- The journal holds the events that led to the live state, in order and in full. -/
structure Records (live : Live State) (events : List Event) : Prop where
  counter : live.nextSeq = events.length
  state : live.state = events.foldl entity.applyEvent default
  highest : live.journal.highest entity.persistenceId = events.length
  numbers : (live.journal.stream entity.persistenceId).map PersistentRepr.sequenceNr = List.range' 1 events.length
  kept : ∀ repr ∈ live.journal.stream entity.persistenceId, repr.deleted = false
  payloads : List.Forall₂ (fun repr event => entity.decodeEvent repr.payload = .ok event)
    (live.journal.stream entity.persistenceId) events

variable {entity}

theorem Records.initial {j : InMemoryJournal} (fresh : j.stream entity.persistenceId = []) :
    Records entity ⟨j, default, 0⟩ [] where
  counter := rfl
  state := rfl
  highest := by simp [InMemoryJournal.highest, fresh]
  numbers := by simp [fresh]
  kept := by simp [fresh]
  payloads := by simp [fresh]

variable (inverts : ∀ event payload, entity.encodeEvent event = .ok payload → entity.decodeEvent payload = .ok event)
include inverts

theorem Records.append {live : Live State} {events more : List Event} (recs : Records entity live events)
    {header : Header} (id : header.persistenceId = entity.persistenceId) {reprs : List PersistentRepr}
    (numbered : Numbered header entity.encodeEvent live.nextSeq more reprs) :
    Records entity
      ⟨(live.journal.writeMessages reprs).1, more.foldl entity.applyEvent live.state, live.nextSeq + more.length⟩
      (events ++ more) := by
  have lengths : reprs.length = more.length := numbered.payloads.length_eq
  have sync : live.nextSeq = live.journal.highest entity.persistenceId := by
    rw [recs.counter, recs.highest]
  obtain ⟨_, stream, highest⟩ :=
    InMemoryJournal.writeMessages_in_order (fun m mem => (numbered.ids m mem).trans id) numbered.numbers sync
  have counter := recs.counter
  constructor
  case counter => simp [counter]
  case state => simp [recs.state]
  case highest => simp [highest, lengths, counter]
  case numbers =>
    have numbers := numbered.numbers
    rw [counter, lengths] at numbers
    simp only [stream, map_append, recs.numbers, numbers, length_append]
    rw [Nat.add_comm events.length 1, List.range'_append_1]
  case kept =>
    simp only [stream, mem_append]
    rintro repr (old | new)
    · exact recs.kept repr old
    · exact numbered.kept repr new
  -- What is decoded later is the event applied now, because the codec inverts the encoder.
  case payloads =>
    simp only [stream]
    exact rel_append recs.payloads (numbered.payloads.imp fun repr ev enc => inverts ev repr.payload enc)

theorem Records.step {live next : Live State} {events : List Event} (recs : Records entity live events)
    {cmd : String × Command} (taken : entity.step live cmd = some next) : ∃ events', Records entity next events' := by
  have attempt := entity.handleCommand_attempt live.journal live.state live.nextSeq cmd.1 cmd.2
  unfold Eventsourced.step at taken
  generalize entity.handleCommand live.journal live.state live.nextSeq cmd.1 cmd.2 = out at attempt taken
  generalize found : entity.batch live.state cmd.2 = bt at attempt
  obtain ⟨j, st, nextSeq, res⟩ := out
  simp only at attempt taken
  cases attempt with
  | settled =>
    split at taken <;> cases taken <;> exact ⟨events, recs⟩
  | persisted pers numbered =>
    cases taken
    cases batch_encode found
    exact ⟨_, recs.append inverts rfl numbered⟩
  | failed _ _ hfor =>
    -- A failed batch is no domain rejection, so the run does not take this step.
    split at taken
    · cases ‹Except.error _ = Except.ok _›
    next rejection eq => exact absurd (Except.error.inj eq) (hfor rejection)
    · cases taken
omit inverts

theorem Records.replay_suffix {live : Live State} {events : List Event} (recs : Records entity live events)
    (width : events.length < 2 ^ 64) {skipped : Nat} (within : skipped ≤ events.length) (st : State) :
    ∃ reprs, Journal.replayMessages live.journal entity.persistenceId (skipped + 1) events.length (2 ^ 64 - 1) =
        .ok reprs ∧
      replay entity.decodeEvent entity.applyEvent st reprs =
        ((events.drop skipped).foldl entity.applyEvent st, .ok ()) :=
  ⟨_, InMemoryJournal.replayMessages_suffix recs.numbers recs.kept (by omega) within,
    replay_eq st (forall₂_drop skipped recs.payloads)⟩

theorem Records.recover {live : Live State} {events : List Event} (recs : Records entity live events)
    (width : live.nextSeq < 2 ^ 64) :
    entity.recover live.journal default true = (live.state, .ok live.nextSeq) := by
  have ctr := recs.counter
  obtain ⟨reprs, replayed, applied⟩ := recs.replay_suffix (by omega) (Nat.zero_le _) default
  have highest : Journal.highestSequenceNr live.journal entity.persistenceId 0 = .ok events.length :=
    congrArg Except.ok recs.highest
  simp only [Eventsourced.recover, Bool.not_true, Bool.false_eq_true, if_false, highest, replayed, applied]
  rw [recs.state, ctr, drop_zero]

theorem Records.of_stream {live : Live State} {events : List Event} (recs : Records entity live events)
    {journal : InMemoryJournal} (eq : journal.stream entity.persistenceId = live.journal.stream entity.persistenceId) :
    Records entity { live with journal } events where
  counter := recs.counter
  state := recs.state
  highest := by
    rw [← recs.highest]
    simp only [InMemoryJournal.highest, eq]
  numbers := by rw [← recs.numbers, ← eq]
  kept := by simpa only [eq] using recs.kept
  payloads := by simpa only [eq] using recs.payloads

/-- After any commands that succeed or are rejected by the domain, recovery from the
journal gives the live state and counter. -/
theorem recover_live_state (inverts : ∀ event payload, entity.encodeEvent event = .ok payload →
      entity.decodeEvent payload = .ok event) {journal : InMemoryJournal}
    (fresh : journal.stream entity.persistenceId = []) {commands : List (String × Command)} {live : Live State}
    (run : Run entity.step (fun _ _ => True) ⟨journal, default, 0⟩ commands live) (width : live.nextSeq < 2 ^ 64) :
    entity.recover live.journal default true = (live.state, .ok live.nextSeq) := by
  obtain ⟨events, recs⟩ := run.invariant (fun live => ∃ events, Records entity live events)
    (fun live cmd next ⟨events, recs⟩ _ taken => recs.step inverts taken) ⟨[], .initial fresh⟩
  exact recs.recover width

end Eventsourced

def counter : Eventsourced (List UInt8) UInt8 Nat String where
  persistenceId := "counter"
  commandToEvents _ cmd := if cmd.length ≤ 2 then .ok cmd else .error "too many"
  applyEvent n event := n + event.toNat
  encodeEvent event := .ok [event]
  decodeEvent
    | [byte] => .ok byte
    | _ => .error "length"

theorem recover_live_state_counter :
    ∃ live : Live Nat,
      Run counter.step (fun _ _ => True) ⟨.new, default, 0⟩ [("w", [1, 2]), ("w", [1, 2, 3]), ("w", [4])] live ∧
      live.state = 7 ∧ live.nextSeq = 3 ∧
      counter.recover live.journal default true = (live.state, .ok live.nextSeq) := by
  refine Run.executed rfl fun run => ⟨by decide, by decide, Eventsourced.recover_live_state ?_ rfl run (by decide)⟩
  rintro ev payload ⟨⟩
  rfl

end Atomr.Persistence
