import Atomr.Persistence.ReadJournal

/-! The polling reader of a projection, and the rebuild of the same projection.

The poller keeps an offset for each persistence id that no one else sees. A rebuild
resets the projection and applies the streams from their start, and does not tell the
poller. Each listing, read, apply and reset is a step.
-/

namespace Atomr.Patterns

open Library Persistence

inductive ReaderFilter where
  | all
  | tag (tag : String)
  | persistenceId (id : String)
  | persistenceIds (ids : List String)
  deriving DecidableEq, Repr

namespace ReaderFilter

variable (filter : ReaderFilter)

def admits (env : EventEnvelope) : Bool :=
  match filter with
  | .tag wanted => env.tags.any fun held => held = wanted
  | _ => true

def selects (persistenceId : String) : Bool :=
  match filter with
  | .all | .tag _ => true
  | .persistenceId id => persistenceId = id
  | .persistenceIds ids => persistenceId ∈ ids

/-- The ids to go through. The journal lists its own in any order, with or without events. -/
def resolvePids (log : EventLog) (listed : List String) : Option (List String) :=
  match filter with
  | .all | .tag _ => if log.Lists listed then some listed else none
  | .persistenceId id => some [id]
  | .persistenceIds ids => some ids

end ReaderFilter

/-- A reader whose apply does not fail, with the decoders registered for the topology. -/
structure Reader (Event Projection : Type) where
  filter : ReaderFilter
  codecs : Option ((manifest : String) → List UInt8 → Option (Except String Event))
  decode : List UInt8 → Except String Event
  apply : Projection → Event → Projection

variable {Event Projection : Type}

namespace Reader

variable (reader : Reader Event Projection) (env : EventEnvelope)

def registered : Option (Except String Event) := reader.codecs.bind fun decode => decode env.manifest env.payload

/-- The poller falls back on the reader's own decoder. -/
def decoded : Except String Event := (reader.registered env).getD (reader.decode env.payload)

def wants : Bool := reader.filter.selects env.persistenceId && reader.filter.admits env

def fold (projection : Projection) (env : EventEnvelope) : Projection :=
  match reader.decoded env with
  | .ok event => reader.apply projection event
  | .error _ => projection

end Reader

inductive PollPhase where
  | idle
  | listed (pids : List String) (maxSeen : Nat)
  | reading (pid : String) (events : List EventEnvelope) (pids : List String) (maxSeen : Nat)
  deriving DecidableEq

inductive RebuildPhase where
  | reset
  | listed (pids : List String) (maxSeq : Nat)
  | reading (pid : String) (events : List EventEnvelope) (pids : List String) (maxSeq : Nat)
  deriving DecidableEq

structure ReaderSystem (Projection : Type) where
  log : EventLog
  projection : Projection
  /-- The offset that is reported. No stream is read from it. -/
  offset : Nat
  pidOffsets : Table String Nat
  poll : PollPhase
  rebuilds : List RebuildPhase

inductive PollAction where
  | list (listed : List String)
  | read
  | readFailed
  | event
  | next
  | finish

inductive RebuildAction where
  | list (listed : List String)
  | read
  | fail
  | event
  | next
  | finish

/-- Rebuilds may overlap. They are numbered in the order of their resets. -/
inductive ReaderAction where
  | append (env : EventEnvelope)
  | poll (action : PollAction)
  | reset
  | rebuild (index : Nat) (action : RebuildAction)

namespace ReaderSystem

def start [Inhabited Projection] : ReaderSystem Projection := ⟨.empty, default, 0, ∅, .idle, []⟩

variable (system : ReaderSystem Projection)

def cursor (pid : String) : Nat := offsetOf system.pidOffsets pid

def setRebuild (index : Nat) (phase : RebuildPhase) : ReaderSystem Projection :=
  { system with rebuilds := system.rebuilds.set index phase }

def passed (pid : String) (number : Nat) : ReaderSystem Projection :=
  { system with pidOffsets := system.pidOffsets.insert pid number }

variable (reader : Reader Event Projection)

def pollEvent (system : ReaderSystem Projection) (pid : String) (env : EventEnvelope) (events : List EventEnvelope)
    (pids : List String) (maxSeen : Nat) : ReaderSystem Projection :=
  let passed := { system.passed pid env.sequenceNr with poll := .reading pid events pids maxSeen }
  if !reader.filter.admits env then passed
  else match reader.decoded env with
    | .ok event => { passed with
        projection := reader.apply system.projection event
        poll := .reading pid events pids (max maxSeen env.sequenceNr) }
    | .error _ => passed

/-- A rebuild applies an event, or gives up where no registered decoder takes it. -/
def rebuildEvent (system : ReaderSystem Projection) (index : Nat) (pid : String) (env : EventEnvelope)
    (events : List EventEnvelope) (pids : List String) (maxSeq : Nat) : ReaderSystem Projection :=
  if !reader.filter.admits env then system.setRebuild index (.reading pid events pids maxSeq)
  else match reader.registered env with
    | some (.ok event) => { system with
        projection := reader.apply system.projection event
        rebuilds := system.rebuilds.set index (.reading pid events pids (max maxSeq env.sequenceNr)) }
    | _ => { system with rebuilds := system.rebuilds.eraseIdx index }

def pollStep (system : ReaderSystem Projection) :
    PollPhase → PollAction → Option (ReaderSystem Projection)
  | .idle, .list listed => do
    let pids ← reader.filter.resolvePids system.log listed
    some { system with poll := .listed pids system.offset }
  | .listed (pid :: pids) maxSeen, .read =>
    let events := system.log.eventsByPersistenceId pid (EventLog.after (system.cursor pid)) (2 ^ 64 - 1)
    some { system with poll := .reading pid events pids maxSeen }
  | .listed (_ :: pids) maxSeen, .readFailed => some { system with poll := .listed pids maxSeen }
  | .reading pid (env :: events) pids maxSeen, .event => some (system.pollEvent reader pid env events pids maxSeen)
  | .reading _ [] pids maxSeen, .next => some { system with poll := .listed pids maxSeen }
  | .listed [] maxSeen, .finish => some { system with offset := maxSeen, poll := .idle }
  | _, _ => none

def rebuildStep (system : ReaderSystem Projection) (index : Nat) :
    RebuildPhase → RebuildAction → Option (ReaderSystem Projection)
  | .reset, .list listed => do
    let pids ← reader.filter.resolvePids system.log listed
    some (system.setRebuild index (.listed pids 0))
  | .listed (pid :: pids) maxSeq, .read =>
    let events := system.log.eventsByPersistenceId pid 1 (2 ^ 64 - 1)
    some (system.setRebuild index (.reading pid events pids maxSeq))
  -- The listing or a read failed.
  | .reset, .fail => some { system with rebuilds := system.rebuilds.eraseIdx index }
  | .listed (_ :: _) _, .fail => some { system with rebuilds := system.rebuilds.eraseIdx index }
  | .reading pid (env :: events) pids maxSeq, .event =>
    some (system.rebuildEvent reader index pid env events pids maxSeq)
  | .reading _ [] pids maxSeq, .next => some (system.setRebuild index (.listed pids maxSeq))
  | .listed [] maxSeq, .finish =>
    some { system with offset := maxSeq, rebuilds := system.rebuilds.eraseIdx index }
  | _, _ => none

def step [Inhabited Projection] (system : ReaderSystem Projection) :
    ReaderAction → Option (ReaderSystem Projection)
  | .append env => (system.log.append env).map fun log => { system with log }
  | .poll action => system.pollStep reader system.poll action
  | .reset => some { system with projection := default, offset := 0, rebuilds := system.rebuilds ++ [.reset] }
  | .rebuild index action => do
    let phase ← system.rebuilds[index]?
    system.rebuildStep reader index phase action

end ReaderSystem

end Atomr.Patterns
