import Atomr.Persistence.Journal

/-! The three command drivers over a journal.

They share the loop that numbers and encodes the events of a command and the
write that follows it, and differ in what they check before and where the state
lives. Handlers are functions: state captured by a closure is not modelled.
-/

namespace Atomr.Persistence

open List

inductive EventsourcedError (DomainErr : Type) where
  | journal (error : JournalError)
  | codec (message : String)
  | permitDenied
  | domain (error : DomainErr)
  deriving DecidableEq

variable {J Command Event State Err : Type}

structure Header where
  persistenceId : String
  manifest : String
  writerUuid : String

def Header.repr (header : Header) (sequenceNr : Nat) (payload : List UInt8) : PersistentRepr :=
  { persistenceId := header.persistenceId
    sequenceNr
    payload
    manifest := header.manifest
    writerUuid := header.writerUuid
    deleted := false
    tags := [] }

/-- The counter is advanced before an event is encoded, and stays advanced when
the encoder fails. -/
def number (header : Header) (encode : Event → Except String (List UInt8)) :
    (nextSeq : Nat) → List Event → Nat × Except String (List PersistentRepr)
  | nextSeq, [] => (nextSeq, .ok [])
  | nextSeq, event :: rest =>
    match encode event with
    | .error message => (nextSeq + 1, .error message)
    | .ok payload =>
      let (final, result) := number header encode (nextSeq + 1) rest
      (final, result.map (header.repr (nextSeq + 1) payload :: ·))

def persist [Journal J] (journal : J) (header : Header) (encode : Event → Except String (List UInt8))
    (nextSeq : Nat) (events : List Event) : J × Nat × Except (EventsourcedError Err) Unit :=
  match number header encode nextSeq events with
  | (final, .error message) => (journal, final, .error (.codec message))
  | (final, .ok reprs) =>
    match Journal.writeMessages journal reprs with
    | (journal, .error error) => (journal, final, .error (.journal error))
    | (journal, .ok ()) => (journal, final, .ok ())

section Numbering
variable {header : Header} {encode : Event → Except String (List UInt8)}

structure Numbered (header : Header) (encode : Event → Except String (List UInt8)) (start : Nat)
    (events : List Event) (reprs : List PersistentRepr) : Prop where
  ids : ∀ repr ∈ reprs, repr.persistenceId = header.persistenceId
  kept : ∀ repr ∈ reprs, repr.deleted = false
  numbers : reprs.map PersistentRepr.sequenceNr = List.range' (start + 1) reprs.length
  payloads : List.Forall₂ (fun repr event => encode event = .ok repr.payload) reprs events

variable {events : List Event} {start : Nat}

theorem Numbered.head {first : PersistentRepr} {rest : List PersistentRepr}
    (numbered : Numbered header encode start events (first :: rest)) : first.sequenceNr = start + 1 := by
  have nums := numbered.numbers
  simp only [map_cons, length_cons, List.range'_succ, List.cons.injEq] at nums
  exact nums.1

theorem number_ok (header : Header) (start : Nat) (encodes : ∀ ev ∈ events, ∃ p, encode ev = .ok p) :
    ∃ reprs, number header encode start events = (start + events.length, .ok reprs) ∧
      Numbered header encode start events reprs := by
  induction events generalizing start with
  | nil => exact ⟨[], rfl, by simp, by simp, by simp, .nil⟩
  | cons ev rest ih =>
    obtain ⟨⟨p, enc⟩, encodes⟩ := forall_mem_cons.mp encodes
    obtain ⟨reprs, numbered, spec⟩ := ih (start + 1) encodes
    refine ⟨header.repr (start + 1) p :: reprs, ?_, ?_, ?_, ?_, .cons enc spec.payloads⟩
    · simp only [number, enc, numbered, length_cons]
      exact Prod.ext (by omega) rfl
    · exact forall_mem_cons.mpr ⟨rfl, spec.ids⟩
    · exact forall_mem_cons.mpr ⟨rfl, spec.kept⟩
    · simp only [map_cons, spec.numbers]
      rfl

theorem number_error (header : Header) (start : Nat) {ev : Event} (mem : ev ∈ events) {m : String}
    (fails : encode ev = .error m) :
    start < (number header encode start events).1 ∧ ∃ message', (number header encode start events).2 = .error message' := by
  induction events generalizing start with
  | nil => cases mem
  | cons first rest ih =>
    -- The batch may already fail at an earlier event, with another message.
    cases enc : encode first with
    | error other => exact ⟨by simp [number, enc], other, by simp [number, enc]⟩
    | ok p =>
      have later : ev ∈ rest := by
        rcases mem_cons.mp mem with rfl | later
        · cases enc.symm.trans fails
        · exact later
      obtain ⟨adv, message', failed⟩ := ih (start + 1) later
      simp only [number, enc, failed]
      exact ⟨by omega, message', rfl⟩

def Persists [Journal J] (journal : J) (header : Header) (encode : Event → Except String (List UInt8)) (start : Nat)
    (events : List Event) : Prop :=
  (∀ event ∈ events, ∃ payload, encode event = .ok payload) ∧
    ∀ reprs, number header encode start events = (start + events.length, .ok reprs) →
      (Journal.writeMessages journal reprs).2 = .ok ()

variable {journal : J}

theorem persist_ok (Err : Type) [Journal J] (pers : Persists journal header encode start events) :
    ∃ reprs, Numbered header encode start events reprs ∧
      (persist journal header encode start events : J × Nat × Except (EventsourcedError Err) Unit) =
        ((Journal.writeMessages journal reprs).1, start + events.length, .ok ()) := by
  obtain ⟨reprs, numbered, spec⟩ := number_ok header start pers.1
  have acc := pers.2 reprs numbered
  refine ⟨reprs, spec, ?_⟩
  cases written : Journal.writeMessages journal reprs with
  | mk post res =>
    rw [written] at acc
    simp only at acc
    simp only [persist, numbered, written, acc]

theorem persist_error (Err : Type) [Journal J] (ne : events ≠ [])
    (fails : ¬ Persists journal header encode start events) :
    ∃ post final error, start < final ∧ (∀ rejection, error ≠ .domain rejection) ∧
      (persist journal header encode start events : J × Nat × Except (EventsourcedError Err) Unit) =
        (post, final, .error error) := by
  by_cases enc : ∀ ev ∈ events, ∃ p, encode ev = .ok p
  · obtain ⟨reprs, numbered, spec⟩ := number_ok header start enc
    have adv : start < start + events.length := by
      have := length_pos_iff.mpr ne
      omega
    cases written : Journal.writeMessages journal reprs with
    | mk post res =>
      cases res with
      | error error => exact ⟨post, _, .journal error, adv, by simp, by simp only [persist, numbered, written]⟩
      | ok done =>
        refine absurd ⟨enc, fun others eq => ?_⟩ fails
        cases numbered.symm.trans eq
        rw [written]
  · push Not at enc
    obtain ⟨ev, mem, undecodable⟩ := enc
    cases failed : encode ev with
    | ok p => exact absurd failed (undecodable p)
    | error m =>
      obtain ⟨adv, message', res⟩ := number_error header start mem failed
      cases numbered : number header encode start events with
      | mk final out =>
        rw [numbered] at adv res
        simp only at adv res
        exact ⟨journal, final, .codec message', adv, by simp, by simp only [persist, numbered, res]⟩

/-- How a command ends for a driver that holds `memory`: there is nothing to number
and all stays as it was, the batch is persisted and applied, or it fails with the
counter advanced and the memory kept. -/
inductive Attempt {Memory : Type} [Journal J] (journal : J) (header : Header) (start : Nat) (memory : Memory)
    (apply : List Event → Memory) : Option (List Event × (Event → Except String (List UInt8))) →
    J → Nat → Memory → Except (EventsourcedError Err) Unit → Prop where
  | settled {result : Except (EventsourcedError Err) Unit} :
      Attempt journal header start memory apply none journal start memory result
  | persisted {events : List Event} {encode : Event → Except String (List UInt8)} {reprs : List PersistentRepr} :
      Persists journal header encode start events → Numbered header encode start events reprs →
      Attempt journal header start memory apply (some (events, encode)) (Journal.writeMessages journal reprs).1
        (start + events.length) (apply events) (.ok ())
  | failed {events : List Event} {encode : Event → Except String (List UInt8)} {after : J} {final : Nat}
      {error : EventsourcedError Err} :
      ¬ Persists journal header encode start events → start < final → (∀ rejection, error ≠ .domain rejection) →
      Attempt journal header start memory apply (some (events, encode)) after final memory (.error error)

end Numbering

/-- Decode and apply replayed events; a payload that does not decode ends the loop. -/
def replay (decode : List UInt8 → Except String Event) (apply : State → Event → State) :
    State → List PersistentRepr → State × Except String Unit
  | state, [] => (state, .ok ())
  | state, repr :: rest =>
    match decode repr.payload with
    | .error message => (state, .error message)
    | .ok event => replay decode apply (apply state event) rest

structure Eventsourced (Command Event State Err : Type) where
  persistenceId : String
  eventManifest : String := "evt"
  commandToEvents : State → Command → Except Err (List Event)
  applyEvent : State → Event → State
  encodeEvent : Event → Except String (List UInt8)
  decodeEvent : List UInt8 → Except String Event

structure Outcome (J State Err : Type) where
  journal : J
  state : State
  nextSeq : Nat
  result : Except (EventsourcedError Err) Unit

namespace Eventsourced

variable (entity : Eventsourced Command Event State Err)

def header (writerUuid : String) : Header := ⟨entity.persistenceId, entity.eventManifest, writerUuid⟩

def handleCommand [Journal J] (journal : J) (state : State) (nextSeq : Nat) (writerUuid : String) (cmd : Command) :
    Outcome J State Err :=
  match entity.commandToEvents state cmd with
  | .error error => ⟨journal, state, nextSeq, .error (.domain error)⟩
  -- Without events the journal is not called.
  | .ok [] => ⟨journal, state, nextSeq, .ok ()⟩
  | .ok events =>
    match persist journal (entity.header writerUuid) entity.encodeEvent nextSeq events with
    | (journal, final, .error error) => ⟨journal, state, final, .error error⟩
    | (journal, final, .ok ()) => ⟨journal, events.foldl entity.applyEvent state, final, .ok ()⟩

def batch (state : State) (cmd : Command) : Option (List Event × (Event → Except String (List UInt8))) :=
  match entity.commandToEvents state cmd with
  | .ok (event :: rest) => some (event :: rest, entity.encodeEvent)
  | _ => none

theorem batch_encode {ent : Eventsourced Command Event State Err} {st : State} {cmd : Command}
    {events : List Event} {encode : Event → Except String (List UInt8)}
    (found : ent.batch st cmd = some (events, encode)) : encode = ent.encodeEvent := by
  unfold batch at found
  split at found <;> cases found
  rfl

theorem handleCommand_attempt [Journal J] (j : J) (st : State) (nextSeq : Nat) (uuid : String)
    (cmd : Command) :
    Attempt j (entity.header uuid) nextSeq st (fun events => events.foldl entity.applyEvent st)
      (entity.batch st cmd) (entity.handleCommand j st nextSeq uuid cmd).journal
      (entity.handleCommand j st nextSeq uuid cmd).nextSeq
      (entity.handleCommand j st nextSeq uuid cmd).state
      (entity.handleCommand j st nextSeq uuid cmd).result := by
  cases der : entity.commandToEvents st cmd with
  | error error =>
    simp only [batch, handleCommand, der]
    exact .settled
  | ok events =>
    cases events with
    | nil =>
      simp only [batch, handleCommand, der]
      exact .settled
    | cons ev rest =>
      simp only [batch, handleCommand, der]
      by_cases pers : Persists j (entity.header uuid) entity.encodeEvent nextSeq (ev :: rest)
      · obtain ⟨reprs, numbered, res⟩ := persist_ok Err pers
        rw [res]
        exact .persisted pers numbered
      · obtain ⟨post, final, error, adv, hfor, res⟩ := persist_error Err (cons_ne_nil _ _) pers
        rw [res]
        exact .failed pers adv hfor

/-- The state is changed in place, so a failed recovery leaves what it had applied. -/
def recover [Journal J] (journal : J) (state : State) (permit : Bool) : State × Except (EventsourcedError Err) Nat :=
  if !permit then (state, .error .permitDenied)
  else match Journal.highestSequenceNr journal entity.persistenceId 0 with
    | .error error => (state, .error (.journal error))
    | .ok highest =>
      match Journal.replayMessages journal entity.persistenceId 1 highest (2 ^ 64 - 1) with
      | .error error => (state, .error (.journal error))
      | .ok events =>
        match replay entity.decodeEvent entity.applyEvent state events with
        | (state, .error message) => (state, .error (.codec message))
        | (state, .ok ()) => (state, .ok highest)

end Eventsourced

def registered {Handler : Type} (handler : Option Handler) (message : String) :
    Except (EventsourcedError Err) Handler :=
  match handler with
  | some handler => .ok handler
  | none => .error (.codec message)

structure PersistentFSM (S D C E Err : Type) where
  persistenceId : String
  state : Option S
  data : Option D
  nextSeq : Nat
  onCommand : Option (S → D → C → Except Err (List E))
  onEvent : Option (S → D → E → S × D)
  encode : Option (E → Except String (List UInt8))
  transitions : List (S × S)

namespace PersistentFSM

variable {S D C E : Type} (fsm : PersistentFSM S D C E Err)

/-- Everything that is checked before an event is numbered. -/
def prepare (cmd : C) :
    Except (EventsourcedError Err) (List E × (S → D → E → S × D) × (E → Except String (List UInt8))) := do
  -- The first missing part is the one reported, so the order is the source's.
  let onCommand ← registered fsm.onCommand "on_command not registered"
  let onEvent ← registered fsm.onEvent "on_event not registered"
  let encode ← registered fsm.encode "encoder not registered"
  let s ← registered fsm.state "initial state not set"
  let d ← registered fsm.data "initial data not set"
  let events ← (onCommand s d cmd).mapError .domain
  return (events, onEvent, encode)

/-- State and data are there: they were checked before the command was run. -/
def apply [DecidableEq S] (onEvent : S → D → E → S × D) (fsm : PersistentFSM S D C E Err) (event : E) :
    PersistentFSM S D C E Err :=
  match fsm.state, fsm.data with
  | some s, some d =>
    let (now, data) := onEvent s d event
    { fsm with
      state := some now
      data := some data
      transitions := if s ≠ now then fsm.transitions ++ [(s, now)] else fsm.transitions }
  | _, _ => fsm

def header : Header := ⟨fsm.persistenceId, "fsm", "fsm"⟩

def handle [DecidableEq S] [Journal J] (journal : J) (cmd : C) :
    PersistentFSM S D C E Err × J × Except (EventsourcedError Err) Unit :=
  match fsm.prepare cmd with
  | .error error => (fsm, journal, .error error)
  | .ok ([], _) => (fsm, journal, .ok ())
  | .ok (events, onEvent, encode) =>
    match persist journal fsm.header encode fsm.nextSeq events with
    | (journal, final, .error error) => ({ fsm with nextSeq := final }, journal, .error error)
    | (journal, final, .ok ()) => (events.foldl (apply onEvent) { fsm with nextSeq := final }, journal, .ok ())

def memory : Option S × Option D × List (S × S) := (fsm.state, fsm.data, fsm.transitions)

def batch (cmd : C) : Option (List E × (E → Except String (List UInt8))) :=
  match fsm.prepare cmd with
  | .ok (event :: rest, _, encode) => some (event :: rest, encode)
  | _ => none

theorem foldl_apply_nextSeq [DecidableEq S] (onEvent : S → D → E → S × D) (events : List E)
    (fsm : PersistentFSM S D C E Err) : (events.foldl (apply onEvent) fsm).nextSeq = fsm.nextSeq := by
  induction events generalizing fsm with
  | nil => rfl
  | cons ev rest ih =>
    rw [foldl_cons, ih]
    unfold apply
    split <;> rfl

theorem handle_attempt [DecidableEq S] [Journal J] (j : J) (cmd : C) :
    ∃ apply, Attempt j fsm.header fsm.nextSeq fsm.memory apply (fsm.batch cmd)
      (fsm.handle j cmd).2.1 (fsm.handle j cmd).1.nextSeq (fsm.handle j cmd).1.memory
      (fsm.handle j cmd).2.2 := by
  cases prepared : fsm.prepare cmd with
  | error error =>
    simp only [batch, handle, prepared]
    exact ⟨fun _ => fsm.memory, .settled⟩
  | ok tools =>
    obtain ⟨events, onEvent, encode⟩ := tools
    cases events with
    | nil =>
      simp only [batch, handle, prepared]
      exact ⟨fun _ => fsm.memory, .settled⟩
    | cons ev rest =>
      simp only [batch, handle, prepared]
      by_cases pers : Persists j fsm.header encode fsm.nextSeq (ev :: rest)
      · obtain ⟨reprs, numbered, res⟩ := persist_ok Err pers
        rw [res]
        rw [foldl_apply_nextSeq]
        exact ⟨fun events => (events.foldl (apply onEvent)
          { fsm with nextSeq := fsm.nextSeq + events.length }).memory, .persisted pers numbered⟩
      · obtain ⟨post, final, error, adv, hfor, res⟩ := persist_error Err (cons_ne_nil _ _) pers
        rw [res]
        exact ⟨fun _ => fsm.memory, .failed pers adv hfor⟩

end PersistentFSM

structure ReceivePersistent (S E Err : Type) where
  persistenceId : String
  state : S
  nextSeq : Nat
  writerUuid : String
  onCommand : Option (S → E → Except Err (List E))
  onEvent : Option (S → E → S)
  encode : Option (E → Except String (List UInt8))

namespace ReceivePersistent

variable {S E : Type} (actor : ReceivePersistent S E Err)

def derive (cmd : E) : Except (EventsourcedError Err) (List E) := do
  let onCommand ← registered actor.onCommand "on_command handler not registered"
  (onCommand actor.state cmd).mapError .domain

/-- Checked only once there is an event to persist. -/
def equip :
    Except (EventsourcedError Err) ((S → E → S) × (E → Except String (List UInt8))) := do
  let onEvent ← registered actor.onEvent "on_event handler not registered"
  let encode ← registered actor.encode "encoder not registered"
  return (onEvent, encode)

def header : Header := ⟨actor.persistenceId, "evt", actor.writerUuid⟩

def handle [Journal J] (journal : J) (cmd : E) :
    ReceivePersistent S E Err × J × Except (EventsourcedError Err) Unit :=
  match actor.derive cmd with
  | .error error => (actor, journal, .error error)
  | .ok [] => (actor, journal, .ok ())
  | .ok events =>
    match actor.equip with
    | .error error => (actor, journal, .error error)
    | .ok (onEvent, encode) =>
      match persist journal actor.header encode actor.nextSeq events with
      | (journal, final, .error error) => ({ actor with nextSeq := final }, journal, .error error)
      | (journal, final, .ok ()) =>
        ({ actor with nextSeq := final, state := events.foldl onEvent actor.state }, journal, .ok ())

def batch (cmd : E) : Option (List E × (E → Except String (List UInt8))) :=
  match actor.derive cmd, actor.equip with
  | .ok (event :: rest), .ok (_, encode) => some (event :: rest, encode)
  | _, _ => none

theorem handle_attempt [Journal J] (j : J) (cmd : E) :
    ∃ apply, Attempt j actor.header actor.nextSeq actor.state apply (actor.batch cmd)
      (actor.handle j cmd).2.1 (actor.handle j cmd).1.nextSeq (actor.handle j cmd).1.state
      (actor.handle j cmd).2.2 := by
  cases der : actor.derive cmd with
  | error error =>
    simp only [batch, handle, der]
    exact ⟨fun _ => actor.state, .settled⟩
  | ok events =>
    cases events with
    | nil =>
      simp only [batch, handle, der]
      exact ⟨fun _ => actor.state, .settled⟩
    | cons ev rest =>
      cases equipped : actor.equip with
      | error error =>
        simp only [batch, handle, der, equipped]
        exact ⟨fun _ => actor.state, .settled⟩
      | ok tools =>
        obtain ⟨onEvent, encode⟩ := tools
        simp only [batch, handle, der, equipped]
        by_cases pers : Persists j actor.header encode actor.nextSeq (ev :: rest)
        · obtain ⟨reprs, numbered, res⟩ := persist_ok Err pers
          rw [res]
          exact ⟨fun events => events.foldl onEvent actor.state, .persisted pers numbered⟩
        · obtain ⟨post, final, error, adv, hfor, res⟩ := persist_error Err (cons_ne_nil _ _) pers
          rw [res]
          exact ⟨fun _ => actor.state, .failed pers adv hfor⟩

end ReceivePersistent

end Atomr.Persistence
