import Atomr.Persistence.Drivers
import Atomr.Persistence.Snapshot

/-! The command gateway: commands to cached aggregates, over a journal and a snapshot store.

An aggregate is recovered by the first command that is sent to it. Everything a command
does to the cache happens to the aggregate it is sent to, also when it fails.
-/

namespace Atomr.Patterns

open Library Persistence

inductive AskError where
  | timeout
  | targetDropped
  deriving DecidableEq, Repr

inductive PatternError (Err : Type) where
  | domain (error : Err)
  | journal (error : JournalError)
  | ask (error : AskError)
  | codec (message : String)
  | invariant (message : String)
  | notConfigured (what : String)
  | intercepted (message : String)
  | concurrencyConflict (expected actual : Nat)
  | replyDropped
  deriving DecidableEq, Repr

structure AggregateRoot (A Id Command Event State Err : Type) where
  persistenceId : A → String
  eventManifest : A → String
  commandToEvents : A → State → Command → Except Err (List Event)
  applyEvent : State → Event → State
  encodeEvent : Event → Except String (List UInt8)
  decodeEvent : List UInt8 → Except String Event
  recoveryCompleted : A → State → (highest : Nat) → A
  checkInvariants : State → Except Err Unit
  /-- An aggregate that does not take part in snapshots has no encoding. -/
  encodeState : State → Option (Except String (List UInt8))
  decodeState : List UInt8 → Except String State
  tags : Event → List String
  aggregateId : Command → Id
  expectedVersion : Command → Option Nat
  commandId : Command → Option String
  stable : ∀ aggregate state highest, persistenceId (recoveryCompleted aggregate state highest) = persistenceId aggregate

structure EntityState (A Event State : Type) where
  aggregate : A
  state : State
  seq : Nat
  recovered : Bool
  dedupe : List (String × List Event)

/-- The gateway, with what it shares: the journal, the snapshot store and what listeners were told. -/
structure CommandGateway (A Id Command Event State Err J S : Type) where
  factory : Id → A
  journal : J
  writerUuid : String
  entities : Table Id (EntityState A Event State)
  interceptors : List (Command → Except (PatternError Err) Unit)
  snapshot : Option (AsyncSnapshotter S)
  dedupeWindow : Nat
  notified : List Event

/-- A command, whether a recovery permit would be granted, and the time. -/
structure Call (Command : Type) where
  cmd : Command
  permit : Bool
  now : Nat

variable {A Id Command Event State Err J S : Type}

def EntityState.new [Inhabited State] (aggregate : A) : EntityState A Event State :=
  ⟨aggregate, default, 0, false, []⟩

def pushDedupe (ring : List (String × List Event)) (key : String) (events : List Event) (cap : Nat) :
    List (String × List Event) :=
  if cap = 0 then ring
  else if ring.any fun entry => entry.1 = key then ring
  else (if ring.length ≥ cap then ring.tail else ring) ++ [(key, events)]

def tagged (tags : Event → List String) (reprs : List PersistentRepr) (events : List Event) : List PersistentRepr :=
  List.zipWith (fun repr event => { repr with tags := tags event }) reprs events

namespace AggregateRoot

variable (root : AggregateRoot A Id Command Event State Err)

def eventsourced (aggregate : A) : Eventsourced Command Event State Err where
  persistenceId := root.persistenceId aggregate
  eventManifest := root.eventManifest aggregate
  commandToEvents := root.commandToEvents aggregate
  applyEvent := root.applyEvent
  encodeEvent := root.encodeEvent
  decodeEvent := root.decodeEvent

/-- The state of the latest snapshot and its number. One that does not decode counts as none. -/
def restore [SnapshotStore S] (store : Option S) (persistenceId : String) (state : State) : State × Option Nat :=
  match store.bind fun store => SnapshotStore.load store persistenceId with
  | some (metadata, payload) =>
    match root.decodeState payload with
    | .ok state => (state, some metadata.sequenceNr)
    | .error _ => (state, none)
  | none => (state, none)

def replayRange [Journal J] (journal : J) (persistenceId : String) (first highest : Nat) (state : State) :
    State × Except (PatternError Err) Unit :=
  if highest ≥ first then
    match Journal.replayMessages journal persistenceId first highest (2 ^ 64 - 1) with
    | .error error => (state, .error (.journal error))
    | .ok reprs =>
      match replay root.decodeEvent root.applyEvent state reprs with
      | (state, .error message) => (state, .error (.codec message))
      | (state, .ok ()) => (state, .ok ())
  else (state, .ok ())

/-- Recovery changes the state in place, so a failed one leaves what it had applied. -/
def recoverEntity [Journal J] [SnapshotStore S] (journal : J) (store : Option S) (permit : Bool)
    (entity : EntityState A Event State) : EntityState A Event State × Except (PatternError Err) Unit :=
  if !permit then (entity, .error (.invariant "recovery permit denied"))
  else
    let persistenceId := root.persistenceId entity.aggregate
    let (state, snapshotSeq) := root.restore store persistenceId entity.state
    match Journal.highestSequenceNr journal persistenceId 0 with
    | .error error => ({ entity with state }, .error (.journal error))
    | .ok highest =>
      match root.replayRange journal persistenceId ((snapshotSeq.map (· + 1)).getD 1) highest state with
      | (state, .error error) => ({ entity with state }, .error error)
      | (state, .ok ()) =>
        ({ entity with
          state
          seq := highest
          recovered := true
          aggregate := root.recoveryCompleted entity.aggregate state highest }, .ok ())

def takeSnapshot [SnapshotStore S] (snapshotter : AsyncSnapshotter S) (entity : EntityState A Event State)
    (now : Nat) : AsyncSnapshotter S :=
  if snapshotter.policy.shouldSnapshot entity.seq then
    match root.encodeState entity.state with
    | some (.ok payload) => snapshotter.save (root.persistenceId entity.aggregate) entity.seq payload now
    | _ => snapshotter
  else snapshotter

end AggregateRoot

namespace CommandGateway

variable (root : AggregateRoot A Id Command Event State Err)
  (gateway : CommandGateway A Id Command Event State Err J S)

def runInterceptors (cmd : Command) : Except (PatternError Err) Unit := gateway.interceptors.forM fun hook => hook cmd

def dedupeKey (cmd : Command) : Option String :=
  if gateway.dedupeWindow > 0 then root.commandId cmd else none

variable (entity : EntityState A Event State)

def complete [SnapshotStore S] (call : Call Command) (events : List Event) :
    CommandGateway A Id Command Event State Err J S × EntityState A Event State :=
  ({ gateway with
      snapshot := gateway.snapshot.map fun snapshotter => root.takeSnapshot snapshotter entity call.now
      notified := gateway.notified ++ events },
    { entity with
      dedupe := match gateway.dedupeKey root call.cmd with
        | some key => pushDedupe entity.dedupe key events gateway.dedupeWindow
        | none => entity.dedupe })

def persistEvents [Journal J] [SnapshotStore S] (call : Call Command) (events : List Event) :
    CommandGateway A Id Command Event State Err J S × EntityState A Event State ×
      Except (PatternError Err) (List Event) :=
  let header := (root.eventsourced entity.aggregate).header gateway.writerUuid
  match number header root.encodeEvent entity.seq events with
  -- The counter stays where the failed event left it.
  | (seq, .error message) => (gateway, { entity with seq }, .error (.codec message))
  | (seq, .ok reprs) =>
    match Journal.writeMessages gateway.journal (tagged root.tags reprs events) with
    -- Here the counter is put back.
    | (journal, .error error) => ({ gateway with journal }, entity, .error (.journal error))
    | (journal, .ok ()) =>
      let gateway := { gateway with journal }
      let entity := { entity with seq, state := events.foldl root.applyEvent entity.state }
      match root.checkInvariants entity.state with
      | .error error => (gateway, entity, .error (.domain error))
      | .ok () =>
        let (gateway, entity) := gateway.complete root entity call events
        (gateway, entity, .ok events)

def execute [Journal J] [SnapshotStore S] (call : Call Command) :
    CommandGateway A Id Command Event State Err J S × EntityState A Event State ×
      Except (PatternError Err) (List Event) :=
  match (root.expectedVersion call.cmd).filter fun expected => entity.seq ≠ expected with
  | some expected => (gateway, entity, .error (.concurrencyConflict expected entity.seq))
  | none =>
    match root.commandToEvents entity.aggregate entity.state call.cmd with
    | .error error => (gateway, entity, .error (.domain error))
    | .ok [] => (gateway, entity, .ok [])
    | .ok events => gateway.persistEvents root entity call events

def ensureRecovered [Journal J] [SnapshotStore S] (permit : Bool) (entity : EntityState A Event State) :
    EntityState A Event State × Except (PatternError Err) Unit :=
  if entity.recovered then (entity, .ok ())
  else root.recoverEntity gateway.journal (gateway.snapshot.map AsyncSnapshotter.store) permit entity

def processEntity [Journal J] [SnapshotStore S] (call : Call Command) :
    CommandGateway A Id Command Event State Err J S × EntityState A Event State ×
      Except (PatternError Err) (List Event) :=
  match gateway.ensureRecovered root call.permit entity with
  | (entity, .error error) => (gateway, entity, .error error)
  | (entity, .ok ()) => gateway.execute root entity call

def cached (cmd : Command) : Option (List Event) :=
  match gateway.dedupeKey root cmd with
  | some key => (entity.dedupe.find? fun entry => entry.1 = key).map Prod.snd
  | none => none

variable [DecidableEq Id] [Inhabited State]

/-- The entity of an id: the cached one, or a new one. -/
def held (id : Id) : EntityState A Event State := (gateway.entities.lookup id).getD (.new (gateway.factory id))

/-- The entity is put back into the cache whatever the outcome. -/
def put (id : Id) (entity : EntityState A Event State) : CommandGateway A Id Command Event State Err J S :=
  { gateway with entities := gateway.entities.insert id entity }

def process [Journal J] [SnapshotStore S] (call : Call Command) :
    CommandGateway A Id Command Event State Err J S × Except (PatternError Err) (List Event) :=
  match gateway.runInterceptors call.cmd with
  | .error error => (gateway, .error error)
  | .ok () =>
    let id := root.aggregateId call.cmd
    let entity := gateway.held id
    match gateway.cached root entity call.cmd with
    | some events => (gateway.put id entity, .ok events)
    | none =>
      let (gateway, entity, result) := gateway.processEntity root entity call
      (gateway.put id entity, result)

end CommandGateway

section Tags
variable {tags : Event → List String} {header : Header} {encode : Event → Except String (List UInt8)} {start : Nat}
  {events : List Event} {reprs : List PersistentRepr}

theorem map_tagged {B : Type} (read : PersistentRepr → B) (ignores : ∀ repr tags, read { repr with tags } = read repr)
    (lengths : reprs.length = events.length) : (tagged tags reprs events).map read = reprs.map read := by
  induction reprs generalizing events with
  | nil => simp [tagged]
  | cons repr rest ih =>
    cases events with
    | nil => cases lengths
    | cons ev events =>
      have tail := ih (Nat.succ.inj lengths)
      simp only [tagged] at tail
      simp [tagged, ignores, tail]

theorem numbered_tagged (numbered : Numbered header encode start events reprs) (tags : Event → List String) :
    Numbered header encode start events (tagged tags reprs events) := by
  have lengths := numbered.payloads.length_eq
  have ms {B : Type} (read : PersistentRepr → B) (ignores : ∀ repr tags, read { repr with tags } = read repr)
      {v : B} (every : ∀ repr ∈ reprs, read repr = v) :
      ∀ repr ∈ tagged tags reprs events, read repr = v := by
    intro repr mem
    have image := List.mem_map_of_mem (f := read) mem
    rw [map_tagged read ignores lengths] at image
    obtain ⟨original, hp, eq⟩ := List.mem_map.mp image
    rw [← eq, every original hp]
  constructor
  case ids => exact ms PersistentRepr.persistenceId (fun _ _ => rfl) numbered.ids
  case kept => exact ms PersistentRepr.deleted (fun _ _ => rfl) numbered.kept
  case numbers =>
    rw [map_tagged _ (fun _ _ => rfl) lengths, numbered.numbers]
    simp [tagged, lengths]
  case payloads =>
    have payloads := numbered.payloads
    rw [← List.forall₂_map_left_iff (R := fun p ev => encode ev = .ok p)] at payloads ⊢
    rw [map_tagged _ (fun _ _ => rfl) lengths]
    exact payloads

end Tags

namespace CommandGateway

variable (root : AggregateRoot A Id Command Event State Err)

section
variable (gateway : CommandGateway A Id Command Event State Err J S) (entity : EntityState A Event State)
  (call : Call Command)

/-- The events of the command, and their messages as they are numbered on from the entity's counter. -/
def Batch (events : List Event) (reprs : List PersistentRepr) : Prop :=
  root.commandToEvents entity.aggregate entity.state call.cmd = .ok events ∧
    Numbered ((root.eventsourced entity.aggregate).header gateway.writerUuid) root.encodeEvent entity.seq events reprs

abbrev applied (events : List Event) : EntityState A Event State :=
  { entity with seq := entity.seq + events.length, state := events.foldl root.applyEvent entity.state }

/-- What a command does to a recovered entity: it is refused, has nothing to do, does not
encode, is not written, is written but leaves a bad state, or is accepted. -/
inductive Executed [Journal J] [SnapshotStore S] :
    CommandGateway A Id Command Event State Err J S → EntityState A Event State →
      Except (PatternError Err) (List Event) → Prop where
  | refused {error : PatternError Err} :
      ((∃ expected, error = .concurrencyConflict expected entity.seq) ∨ ∃ rejection, error = .domain rejection) →
      Executed gateway entity (.error error)
  | nothing : Executed gateway entity (.ok [])
  | unencoded {events : List Event} {seq : Nat} {message : String} :
      root.commandToEvents entity.aggregate entity.state call.cmd = .ok events →
      (∃ event ∈ events, ∀ payload, root.encodeEvent event ≠ .ok payload) → entity.seq < seq →
      Executed gateway { entity with seq } (.error (.codec message))
  | unwritten {events : List Event} {reprs : List PersistentRepr} {journal : J} {error : JournalError} :
      Batch root gateway entity call events reprs →
      Journal.writeMessages gateway.journal reprs = (journal, .error error) →
      Executed { gateway with journal } entity (.error (.journal error))
  | violated {events : List Event} {reprs : List PersistentRepr} {journal : J} {error : Err} :
      Batch root gateway entity call events reprs →
      Journal.writeMessages gateway.journal reprs = (journal, .ok ()) →
      root.checkInvariants (applied root entity events).state = .error error →
      Executed { gateway with journal } (applied root entity events) (.error (.domain error))
  | accepted {events : List Event} {reprs : List PersistentRepr} {journal : J}
      {outcome : CommandGateway A Id Command Event State Err J S × EntityState A Event State} :
      Batch root gateway entity call events reprs →
      Journal.writeMessages gateway.journal reprs = (journal, .ok ()) →
      outcome = complete root { gateway with journal } (applied root entity events) call events →
      Executed outcome.1 outcome.2 (.ok events)

end

variable (gateway : CommandGateway A Id Command Event State Err J S)

theorem persistEvents_executed [Journal J] [SnapshotStore S] {ent : EntityState A Event State}
    {c : Call Command} {events : List Event}
    (der : root.commandToEvents ent.aggregate ent.state c.cmd = .ok events) :
    Executed root gateway ent c (gateway.persistEvents root ent c events).1
      (gateway.persistEvents root ent c events).2.1 (gateway.persistEvents root ent c events).2.2 := by
  by_cases enc : ∀ ev ∈ events, ∃ p, root.encodeEvent ev = .ok p
  · obtain ⟨reprs, found, numbered⟩ :=
      number_ok ((root.eventsourced ent.aggregate).header gateway.writerUuid) ent.seq enc
    have spec := numbered_tagged numbered root.tags
    cases written : Journal.writeMessages gateway.journal (tagged root.tags reprs events) with
    | mk j res =>
      cases res with
      | error error =>
        simp only [persistEvents, found, written]
        exact .unwritten ⟨der, spec⟩ written
      | ok done =>
        cases checked : root.checkInvariants (events.foldl root.applyEvent ent.state) with
        | error error =>
          simp only [persistEvents, found, written, checked]
          exact .violated ⟨der, spec⟩ written checked
        | ok fine =>
          simp only [persistEvents, found, written, checked]
          exact .accepted ⟨der, spec⟩ written rfl
  · push Not at enc
    obtain ⟨ev, mem, unencodable⟩ := enc
    cases failed : root.encodeEvent ev with
    | ok p => exact absurd failed (unencodable p)
    | error m =>
      obtain ⟨adv, message', res⟩ :=
        number_error ((root.eventsourced ent.aggregate).header gateway.writerUuid) ent.seq mem failed
      cases numbered : number ((root.eventsourced ent.aggregate).header gateway.writerUuid) root.encodeEvent
        ent.seq events with
      | mk seq out =>
        rw [numbered] at adv res
        simp only at adv res
        simp only [persistEvents, numbered, res]
        exact .unencoded der ⟨ev, mem, unencodable⟩ adv

theorem execute_executed [Journal J] [SnapshotStore S] (ent : EntityState A Event State) (c : Call Command) :
    Executed root gateway ent c (gateway.execute root ent c).1
      (gateway.execute root ent c).2.1 (gateway.execute root ent c).2.2 := by
  unfold execute
  split
  next exp _ => exact .refused (.inl ⟨exp, rfl⟩)
  · split
    next rejection _ => exact .refused (.inr ⟨rejection, rfl⟩)
    · exact .nothing
    next der => exact gateway.persistEvents_executed root der

variable [DecidableEq Id] [Inhabited State]

inductive Processed [Journal J] [SnapshotStore S] (gateway : CommandGateway A Id Command Event State Err J S)
    (call : Call Command) :
    CommandGateway A Id Command Event State Err J S → Except (PatternError Err) (List Event) → Prop where
  | intercepted {error : PatternError Err} : Processed gateway call gateway (.error error)
  | repeated {events : List Event} :
      Processed gateway call
        (gateway.put (root.aggregateId call.cmd) (gateway.held (root.aggregateId call.cmd))) (.ok events)
  | unrecovered {entity : EntityState A Event State} {error : PatternError Err} :
      gateway.ensureRecovered root call.permit (gateway.held (root.aggregateId call.cmd)) = (entity, .error error) →
      Processed gateway call (gateway.put (root.aggregateId call.cmd) entity) (.error error)
  | executed {entity outcome : EntityState A Event State} {after : CommandGateway A Id Command Event State Err J S}
      {result : Except (PatternError Err) (List Event)} :
      gateway.ensureRecovered root call.permit (gateway.held (root.aggregateId call.cmd)) = (entity, .ok ()) →
      Executed root gateway entity call after outcome result →
      Processed gateway call (after.put (root.aggregateId call.cmd) outcome) result

theorem process_processed [Journal J] [SnapshotStore S] (c : Call Command) :
    Processed root gateway c (gateway.process root c).1 (gateway.process root c).2 := by
  unfold process
  split
  · exact .intercepted
  · simp only
    split
    · exact .repeated
    · cases rec : gateway.ensureRecovered root c.permit (gateway.held (root.aggregateId c.cmd)) with
      | mk ent res =>
        cases res with
        | error error =>
          simp only [processEntity, rec]
          exact .unrecovered rec
        | ok done =>
          simp only [processEntity, rec]
          exact .executed rec (gateway.execute_executed root ent c)

theorem held_put (id other : Id) (ent : EntityState A Event State) :
    (gateway.put id ent).held other = if other = id then ent else gateway.held other := by
  unfold held put
  rw [Table.lookup_insert_if]
  split <;> rfl

end CommandGateway

end Atomr.Patterns
