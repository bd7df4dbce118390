import Atomr.Patterns.CommandGateway
import Atomr.Persistence.Replay

/-! A fresh gateway recovers what the old one held, with or without snapshots.

A cached entity is the fold of the events in its stream of the journal, and the snapshot
that would be loaded for it is the fold of some first part of them.
-/

namespace Atomr.Patterns

open Library Persistence List

variable {A Id Command Event State Err : Type} [Inhabited State] (root : AggregateRoot A Id Command Event State Err)

/-- The snapshot of an id holds the state after some first part of its events. -/
def SnapshotSound (store : Option InMemorySnapshotStore) (persistenceId : String) (events : List Event) : Prop :=
  ∀ held ∈ store, ∀ metadata payload, held.load persistenceId = some (metadata, payload) →
    metadata.sequenceNr ≤ events.length ∧
      root.decodeState payload = .ok ((events.take metadata.sequenceNr).foldl root.applyEvent default)

variable {root} {store : Option InMemorySnapshotStore} {pid : String} {events : List Event}

theorem SnapshotSound.restore (sound : SnapshotSound root store pid events) :
    ∃ skipped snapshotSeq, root.restore store pid default =
        ((events.take skipped).foldl root.applyEvent default, snapshotSeq) ∧
      skipped ≤ events.length ∧ (snapshotSeq.map (· + 1)).getD 1 = skipped + 1 := by
  cases loaded : store.bind fun h => h.load pid with
  | none => exact ⟨0, none, by simp [AggregateRoot.restore, SnapshotStore.load, loaded], Nat.zero_le _, rfl⟩
  | some snap =>
    obtain ⟨md, p⟩ := snap
    obtain ⟨h, hp, found⟩ := Option.bind_eq_some_iff.mp loaded
    obtain ⟨within, dec⟩ := sound h hp md p found
    refine ⟨md.sequenceNr, some md.sequenceNr, ?_, within, rfl⟩
    simp [AggregateRoot.restore, SnapshotStore.load, loaded, dec]

theorem SnapshotSound.append (sound : SnapshotSound root store pid events) (more : List Event) :
    SnapshotSound root store pid (events ++ more) := by
  intro h hp md p found
  obtain ⟨within, dec⟩ := sound h hp md p found
  refine ⟨by rw [length_append]; omega, ?_⟩
  rw [dec, take_append_of_le_length within]

variable {aggregate : A} {live : Live State} {entity : EntityState A Event State}

theorem replayRange_suffix (recs : (root.eventsourced aggregate).Records live events)
    (width : events.length < 2 ^ 64) {skipped : Nat} (within : skipped ≤ events.length) (st : State) :
    root.replayRange live.journal (root.persistenceId aggregate) (skipped + 1) events.length st =
      ((events.drop skipped).foldl root.applyEvent st, .ok ()) := by
  unfold AggregateRoot.replayRange
  split
  · obtain ⟨reprs, replayed, applied⟩ := recs.replay_suffix width within st
    simp only [AggregateRoot.eventsourced] at replayed applied
    simp only [replayed, applied]
  next nothing => rw [drop_eq_nil_of_le (by omega), foldl_nil]

/-- From the default state, recovery folds all events of the stream, whatever part of
them the snapshot stands for. -/
theorem recoverEntity_folds (ent : EntityState A Event State)
    (recs : (root.eventsourced aggregate).Records live events)
    (sound : SnapshotSound root store (root.persistenceId aggregate) events)
    (k : root.persistenceId ent.aggregate = root.persistenceId aggregate) (unused : ent.state = default)
    (width : events.length < 2 ^ 64) :
    root.recoverEntity live.journal store true ent =
      ({ ent with
          state := events.foldl root.applyEvent default
          seq := events.length
          recovered := true
          aggregate := root.recoveryCompleted ent.aggregate (events.foldl root.applyEvent default) events.length },
        .ok ()) := by
  obtain ⟨skipped, snapshotSeq, restored, within, first⟩ := sound.restore
  have highest : Journal.highestSequenceNr live.journal (root.persistenceId aggregate) 0 = .ok events.length :=
    congrArg Except.ok recs.highest
  have replayed := replayRange_suffix recs width within ((events.take skipped).foldl root.applyEvent default)
  rw [← foldl_append, take_append_drop] at replayed
  simp only [AggregateRoot.recoverEntity, Bool.not_true, Bool.false_eq_true, if_false, k, unused, restored, highest,
    first, replayed]

/-- An entity of the cache is the fold of what its aggregate has in the journal. -/
structure Consistent (root : AggregateRoot A Id Command Event State Err) (aggregate : A) (journal : InMemoryJournal)
    (store : Option InMemorySnapshotStore) (entity : EntityState A Event State) (events : List Event) : Prop where
  key : root.persistenceId entity.aggregate = root.persistenceId aggregate
  records : (root.eventsourced aggregate).Records ⟨journal, entity.state, entity.seq⟩ events
  unrecovered : entity.recovered = false → events = []
  snapshot : SnapshotSound root store (root.persistenceId aggregate) events

variable {j journal' : InMemoryJournal} {store' : Option InMemorySnapshotStore}
  (consistent : Consistent root aggregate j store entity events)
include consistent

theorem Consistent.frame
    (s : journal'.stream (root.persistenceId aggregate) = j.stream (root.persistenceId aggregate))
    (snap : SnapshotSound root store' (root.persistenceId aggregate) events) :
    Consistent root aggregate journal' store' entity events where
  key := consistent.key
  records := consistent.records.of_stream s
  unrecovered := consistent.unrecovered
  snapshot := snap

theorem Consistent.recoverEntity (unrecovered : entity.recovered = false) {permit : Bool}
    {post : EntityState A Event State} {res : Except (PatternError Err) Unit}
    (rec : root.recoverEntity j store permit entity = (post, res)) :
    Consistent root aggregate j store post events ∧ (res = .ok () → post.recovered = true) := by
  cases permit with
  | false =>
    cases rec
    exact ⟨consistent, nofun⟩
  | true =>
    -- Nothing has been written for an entity that is not recovered.
    cases consistent.unrecovered unrecovered
    have st : entity.state = default := consistent.records.state
    have folded := recoverEntity_folds entity consistent.records consistent.snapshot consistent.key st (by simp)
    cases folded.symm.trans rec
    refine ⟨⟨?_, ?_, fun _ => rfl, consistent.snapshot⟩, fun _ => rfl⟩
    · exact (root.stable _ _ _).trans consistent.key
    · have reprs := consistent.records
      exact ⟨rfl, rfl, reprs.highest, reprs.numbers, reprs.kept, reprs.payloads⟩
omit consistent

variable {header : Header} {more : List Event} {reprs : List PersistentRepr}

theorem Consistent.persisted
    (inv : ∀ ev p, root.encodeEvent ev = .ok p → root.decodeEvent p = .ok ev)
    (cons : Consistent root aggregate j store entity events)
    (id : header.persistenceId = root.persistenceId entity.aggregate)
    (numbered : Numbered header root.encodeEvent entity.seq more reprs) (rcvd : entity.recovered = true)
    (dedupe : List (String × List Event))
    (snap : SnapshotSound root store' (root.persistenceId aggregate) (events ++ more)) :
    Consistent root aggregate (j.writeMessages reprs).1 store'
      ⟨entity.aggregate, more.foldl root.applyEvent entity.state, entity.seq + more.length, entity.recovered, dedupe⟩
      (events ++ more) where
  key := cons.key
  records := cons.records.append inv (id.trans cons.key) numbered
  unrecovered lazily := by simp [rcvd] at lazily
  snapshot := snap

theorem Consistent.accepts (cons : Consistent root aggregate j store entity events)
    (id : header.persistenceId = root.persistenceId entity.aggregate)
    (numbered : Numbered header root.encodeEvent entity.seq more reprs) :
    (j.writeMessages reprs).2 = .ok () := by
  have k : header.persistenceId = root.persistenceId aggregate := id.trans cons.key
  have sync : entity.seq = j.highest (root.persistenceId aggregate) :=
    cons.records.counter.trans cons.records.highest.symm
  exact (InMemoryJournal.writeMessages_in_order (fun m mem => (numbered.ids m mem).trans k)
    numbered.numbers sync).1

theorem SnapshotSound.takeSnapshot (stateInverts : ∀ st p, root.encodeState st = some (.ok p) →
      root.decodeState p = .ok st)
    {snap : Option (AsyncSnapshotter InMemorySnapshotStore)}
    (sound : SnapshotSound root (snap.map AsyncSnapshotter.store) pid events)
    (cur : root.persistenceId entity.aggregate = pid →
      entity.seq = events.length ∧ entity.state = events.foldl root.applyEvent default) (t : Nat) :
    SnapshotSound root
      ((snap.map fun snapshotter => root.takeSnapshot snapshotter entity t).map AsyncSnapshotter.store)
      pid events := by
  rintro h hp md p found
  obtain ⟨_, taken, rfl⟩ := Option.map_eq_some_iff.mp hp
  obtain ⟨snapshotter, configured, rfl⟩ := Option.map_eq_some_iff.mp taken
  have pre := sound snapshotter.store (by simp [configured]) md p
  unfold AggregateRoot.takeSnapshot at found
  split at found
  · split at found
    next encoding enc =>
      rw [AsyncSnapshotter.load_save] at found
      split at found
      next own =>
        cases found
        obtain ⟨seq, st⟩ := cur own.symm
        refine ⟨Nat.le_of_eq seq, ?_⟩
        rw [stateInverts _ _ enc, seq, take_length, st]
      · exact pre found
    · exact pre found
  · exact pre found

namespace CommandGateway

variable [DecidableEq Id]

def step (root : AggregateRoot A Id Command Event State Err)
    (gateway : CommandGateway A Id Command Event State Err InMemoryJournal InMemorySnapshotStore) (call : Call Command) :
    Option (CommandGateway A Id Command Event State Err InMemoryJournal InMemorySnapshotStore) :=
  some (gateway.process root call).1

def codecFailed {Answer : Type} : Except (PatternError Err) Answer → Bool
  | .error (.codec _) => true
  | _ => false

def Encodes (root : AggregateRoot A Id Command Event State Err)
    (gateway : CommandGateway A Id Command Event State Err InMemoryJournal InMemorySnapshotStore)
    (call : Call Command) : Prop :=
  codecFailed (gateway.process root call).2 = false
deriving Decidable

variable {gateway : CommandGateway A Id Command Event State Err InMemoryJournal InMemorySnapshotStore}
  {factory : Id → A} {c : Call Command}

structure AllConsistent (root : AggregateRoot A Id Command Event State Err) (factory : Id → A)
    (gateway : CommandGateway A Id Command Event State Err InMemoryJournal InMemorySnapshotStore) : Prop where
  made : gateway.factory = factory
  entities : ∀ id, ∃ events, Consistent root (factory id) gateway.journal
    (gateway.snapshot.map AsyncSnapshotter.store) (gateway.held id) events

variable {events : List Event} {id : Id}

theorem AllConsistent.put (all : AllConsistent root factory gateway)
    (changed : Consistent root (factory id) gateway.journal (gateway.snapshot.map AsyncSnapshotter.store) entity events) :
    AllConsistent root factory (gateway.put id entity) := by
  refine ⟨all.made, fun other => ?_⟩
  rw [held_put]
  split
  next eq =>
    subst eq
    exact ⟨events, changed⟩
  · exact all.entities other

variable (inverts : ∀ event payload, root.encodeEvent event = .ok payload → root.decodeEvent payload = .ok event)
include inverts

theorem AllConsistent.persisted (nodup : Function.Injective fun id => root.persistenceId (factory id))
    (all : AllConsistent root factory gateway) {more : List Event}
    (changed : Consistent root (factory id) gateway.journal (gateway.snapshot.map AsyncSnapshotter.store) entity events)
    {header : Header} (own : header.persistenceId = root.persistenceId entity.aggregate) {reprs : List PersistentRepr}
    (numbered : Numbered header root.encodeEvent entity.seq more reprs) (rcvd : entity.recovered = true)
    {snapshot : Option (AsyncSnapshotter InMemorySnapshotStore)}
    (sound : ∀ other kept, SnapshotSound root (gateway.snapshot.map AsyncSnapshotter.store)
        (root.persistenceId (factory other)) kept → (other = id → kept = events ++ more) →
      SnapshotSound root (snapshot.map AsyncSnapshotter.store) (root.persistenceId (factory other)) kept)
    (notified : List Event) (dedupe : List (String × List Event)) :
    AllConsistent root factory
      (CommandGateway.put { gateway with journal := (gateway.journal.writeMessages reprs).1, snapshot, notified } id
        ⟨entity.aggregate, more.foldl root.applyEvent entity.state, entity.seq + more.length, entity.recovered,
          dedupe⟩) := by
  refine ⟨all.made, fun other => ?_⟩
  rw [held_put]
  split
  next eq =>
    subst eq
    exact ⟨_, changed.persisted inverts own numbered rcvd dedupe
      (sound other _ (changed.snapshot.append more) fun _ => rfl)⟩
  next ne =>
    obtain ⟨kept, cons⟩ := all.entities other
    refine ⟨kept, cons.frame ?_ (sound other _ cons.snapshot fun eq => absurd eq ne)⟩
    exact InMemoryJournal.stream_writeMessages_of_ne numbered.ids
      (fun clash => ne (nodup (clash.trans (own.trans changed.key)))) _

theorem AllConsistent.step (stateInverts : ∀ st p, root.encodeState st = some (.ok p) →
      root.decodeState p = .ok st) (nodup : Function.Injective fun id => root.persistenceId (factory id))
    (all : AllConsistent root factory gateway) (enc : Encodes root gateway c) :
    AllConsistent root factory (gateway.process root c).1 := by
  have proc := gateway.process_processed root c
  unfold Encodes at enc
  generalize gateway.process root c = post at proc enc
  obtain ⟨post, res⟩ := post
  obtain ⟨events, cons⟩ := all.entities (root.aggregateId c.cmd)
  -- The entity as it is when the command is run, or when recovery has failed.
  have recovery : ∀ {ent : EntityState A Event State} {ans : Except (PatternError Err) Unit},
      gateway.ensureRecovered root c.permit (gateway.held (root.aggregateId c.cmd)) = (ent, ans) →
      Consistent root (factory (root.aggregateId c.cmd)) gateway.journal
        (gateway.snapshot.map AsyncSnapshotter.store) ent events ∧ (ans = .ok () → ent.recovered = true) := by
    intro ent ans hens
    unfold ensureRecovered at hens
    split at hens
    next already =>
      cases hens
      exact ⟨cons, fun _ => already⟩
    next lazily => exact cons.recoverEntity (by simpa using lazily) hens
  cases proc with
  | intercepted => exact all
  | repeated => exact all.put cons
  | unrecovered hens => exact all.put (recovery hens).1
  | @executed ent out post res hens executed =>
    obtain ⟨ready, rcvd⟩ := recovery hens
    have rcvd := rcvd rfl
    cases executed with
    | refused | nothing => exact all.put ready
    | unencoded => cases enc
    | unwritten batch written =>
      have accepted := ready.accepts rfl batch.2
      cases accepted.symm.trans (congrArg Prod.snd written)
    | @violated more reprs j err batch written checked =>
      cases (congrArg Prod.fst written : (gateway.journal.writeMessages reprs).1 = j)
      exact all.persisted inverts nodup ready rfl batch.2 rcvd (fun _ _ sound _ => sound) _ _
    | @accepted more reprs j done batch written compl =>
      cases (congrArg Prod.fst written : (gateway.journal.writeMessages reprs).1 = j)
      subst compl
      refine all.persisted inverts nodup ready rfl batch.2 rcvd (fun other kept sound final => ?_) _ _
      refine sound.takeSnapshot stateInverts (fun own => ?_) c.now
      -- The snapshot is of this aggregate only, and of all its events.
      have eq : other = root.aggregateId c.cmd := nodup (own.symm.trans ready.key)
      have seq : ent.seq = events.length := ready.records.counter
      have st : ent.state = events.foldl root.applyEvent default := ready.records.state
      simp [final eq, seq, st]
omit inverts

/-- After any commands whose events encode, a fresh gateway on the same journal and
store recovers for every id the state and the number the old one held. -/
theorem recovers_held_entities (inverts : ∀ event payload, root.encodeEvent event = .ok payload →
      root.decodeEvent payload = .ok event)
    (stateInverts : ∀ state payload, root.encodeState state = some (.ok payload) →
      root.decodeState payload = .ok state)
    {first fresh : CommandGateway A Id Command Event State Err InMemoryJournal InMemorySnapshotStore}
    (distinct : Function.Injective fun id => root.persistenceId (first.factory id))
    (noEvents : first.journal = .new) (noSnapshots : ∀ snapshotter ∈ first.snapshot, snapshotter.store = .new)
    (noEntities : first.entities = ∅) {calls : List (Call Command)}
    (run : Run (CommandGateway.step root) (Encodes root) first calls gateway)
    (sameFactory : fresh.factory = gateway.factory) (sameJournal : fresh.journal = gateway.journal)
    (sameStore : fresh.snapshot.map AsyncSnapshotter.store = gateway.snapshot.map AsyncSnapshotter.store)
    (notCached : fresh.entities = ∅) (id : Id) (width : (gateway.held id).seq < 2 ^ 64) :
    ∃ entity, fresh.ensureRecovered root true (fresh.held id) = (entity, .ok ()) ∧
      entity.state = (gateway.held id).state ∧ entity.seq = (gateway.held id).seq := by
  have start : AllConsistent root first.factory first := by
    refine ⟨rfl, fun id => ⟨[], ?_⟩⟩
    have held : first.held id = .new (first.factory id) := by simp [held, noEntities]
    have empty : first.journal.stream (root.persistenceId (first.factory id)) = [] := by
      simp [noEvents, InMemoryJournal.stream, InMemoryJournal.new]
    rw [held]
    refine ⟨rfl, .initial empty, fun _ => rfl, fun store present metadata payload found => ?_⟩
    obtain ⟨snapshotter, configured, rfl⟩ := Option.map_eq_some_iff.mp present
    rw [noSnapshots snapshotter configured] at found
    simp [InMemorySnapshotStore.load, InMemorySnapshotStore.entries, InMemorySnapshotStore.new] at found
  have all := run.invariant (AllConsistent root first.factory)
    (fun _ _ _ all encodes taken => Option.some.inj taken ▸ all.step inverts stateInverts distinct encodes) start
  obtain ⟨events, consistent⟩ := all.entities id
  have counter : (gateway.held id).seq = events.length := consistent.records.counter
  have held : fresh.held id = .new (first.factory id) := by simp [held, notCached, sameFactory, all.made]
  have folded := recoverEntity_folds (.new (first.factory id) : EntityState A Event State)
    consistent.records consistent.snapshot rfl rfl (counter ▸ width)
  have lazily : fresh.ensureRecovered root true (fresh.held id) = root.recoverEntity gateway.journal
      (gateway.snapshot.map AsyncSnapshotter.store) true (.new (first.factory id)) := by
    rw [held, ensureRecovered, sameJournal, sameStore]
    rfl
  exact ⟨_, lazily.trans folded, consistent.records.state.symm, counter.symm⟩

end CommandGateway

/-- A balance that takes at most two bookings in one command and should not exceed nine. -/
def account : AggregateRoot Bool Bool (Bool × List UInt8) UInt8 UInt8 String where
  persistenceId id := if id then "a" else "b"
  eventManifest _ := "evt"
  commandToEvents _ _ cmd := if cmd.2.length ≤ 2 then .ok cmd.2 else .error "too many"
  applyEvent balance booking := balance + booking
  encodeEvent booking := if booking = 255 then .error "reserved byte" else .ok [booking]
  decodeEvent
    | [byte] => .ok byte
    | _ => .error "length"
  recoveryCompleted id _ _ := id
  checkInvariants balance := if balance ≤ 9 then .ok () else .error "over the limit"
  encodeState balance := some (.ok [balance])
  decodeState
    | [byte] => .ok byte
    | _ => .error "length"
  tags _ := ["booking"]
  aggregateId cmd := cmd.1
  expectedVersion _ := none
  commandId _ := none
  stable _ _ _ := rfl

def accounts : CommandGateway Bool Bool (Bool × List UInt8) UInt8 UInt8 String InMemoryJournal InMemorySnapshotStore where
  factory id := id
  journal := .new
  writerUuid := "w"
  entities := ∅
  interceptors := []
  snapshot := some ⟨.new, .periodic 2, 1, le_rfl⟩
  dedupeWindow := 0
  notified := []

def CommandGateway.restart {J S : Type} (gateway : CommandGateway A Id Command Event State Err J S) :
    CommandGateway A Id Command Event State Err J S :=
  { gateway with entities := ∅ }

/-- Two accepted commands, a rejected one, and one that is written and then violates the
limit: the snapshot at two and the third event give back the balance. -/
theorem recovers_held_entities_accounts :
    ∃ gateway, Run (CommandGateway.step account) (CommandGateway.Encodes account) accounts
        [⟨(true, [1, 2]), true, 0⟩, ⟨(false, [3]), true, 0⟩, ⟨(true, [1, 2, 3]), true, 0⟩, ⟨(true, [8]), true, 0⟩]
        gateway ∧
      (gateway.held true).state = 11 ∧ (gateway.held true).seq = 3 ∧
      ∃ entity, gateway.restart.ensureRecovered account true (gateway.restart.held true) = (entity, .ok ()) ∧
        entity.state = (gateway.held true).state ∧ entity.seq = (gateway.held true).seq := by
  refine Run.executed rfl fun run => ⟨by decide, by decide, ?_⟩
  refine CommandGateway.recovers_held_entities ?_ ?_ ?_ rfl ?_ rfl run ?_ ?_ ?_ ?_ true (by decide)
  · intro booking payload encoded
    simp only [account] at encoded
    split at encoded
    · cases encoded
    · cases encoded
      rfl
  · rintro balance payload ⟨⟩
    rfl
  · unfold Function.Injective
    decide
  · rintro _ ⟨⟩
    rfl
  all_goals rfl

end Atomr.Patterns
