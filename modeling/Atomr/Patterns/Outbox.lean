import Atomr.Persistence.ReadJournal

/-! The publisher loop of the outbox.

The loop goes through the persistence ids of the journal and hands each decodable event to
the publisher. It keeps its offsets in a map of its own, loaded from the offset store when
it starts and saved there at the end of each round. It can crash between any two steps, and
a new loop then starts from the store.
-/

namespace Atomr.Patterns

open Library Persistence

namespace InMemoryOffsetStore

def save (store offsets : Table String Nat) : Table String Nat := store.mergeWith (fun _ offset => offset) offsets

end InMemoryOffsetStore

inductive OutboxPhase where
  | idle
  | listed (pids : List String)
  | reading (pid : String) (events : List EventEnvelope) (pids : List String)
  /-- The event has been published and its offset is not recorded yet. -/
  | published (pid : String) (env : EventEnvelope) (events : List EventEnvelope) (pids : List String)

structure OutboxLoop where
  pidOffsets : Table String Nat
  published : Nat
  phase : OutboxPhase

structure Publication (Event : Type) where
  env : EventEnvelope
  event : Event
  ok : Bool

structure OutboxSystem (Event : Type) where
  log : EventLog
  store : Table String Nat
  loop : Option OutboxLoop
  publications : List (Publication Event)

inductive LoopAction where
  | list (listed : List String)
  | listFailed
  | read
  | readFailed
  | publish (ok : Bool)
  | record
  | skip
  | next
  | save

inductive OutboxAction where
  | append (env : EventEnvelope)
  | start
  | loop (action : LoopAction)
  /-- The loop is gone, by a crash or because it was stopped. -/
  | crash

variable {Event : Type}

namespace OutboxSystem

def initial : OutboxSystem Event := ⟨.empty, ∅, none, []⟩

def goOn (system : OutboxSystem Event) (loop : OutboxLoop) (phase : OutboxPhase) : OutboxSystem Event :=
  { system with loop := some { loop with phase } }

variable (decode : List UInt8 → Except String Event)

/-- The event at the front of the buffer goes to the publisher. A refusal ends the work on the id. -/
def publish (system : OutboxSystem Event) (loop : OutboxLoop) (pid : String) (env : EventEnvelope)
    (events : List EventEnvelope) (pids : List String) (ok : Bool) : Option (OutboxSystem Event) :=
  match decode env.payload with
  | .ok event =>
    let called : OutboxSystem Event := { system with publications := system.publications ++ [⟨env, event, ok⟩] }
    some (called.goOn loop (if ok then .published pid env events pids else .listed pids))
  | .error _ => none

def skip (system : OutboxSystem Event) (loop : OutboxLoop) (pid : String) (env : EventEnvelope)
    (events : List EventEnvelope) (pids : List String) : Option (OutboxSystem Event) :=
  match decode env.payload with
  | .ok _ => none
  | .error _ =>
    let passed := { loop with pidOffsets := loop.pidOffsets.insert pid env.sequenceNr }
    some (system.goOn passed (.reading pid events pids))

def loopStep (system : OutboxSystem Event) (loop : OutboxLoop) :
    OutboxPhase → LoopAction → Option (OutboxSystem Event)
  -- Nothing depends on what the journal lists.
  | .idle, .list listed => some (system.goOn loop (.listed listed))
  | .idle, .listFailed => some system
  | .listed (pid :: pids), .read =>
    let first := EventLog.after (offsetOf loop.pidOffsets pid)
    some (system.goOn loop (.reading pid (system.log.eventsByPersistenceId pid first (2 ^ 64 - 1)) pids))
  | .listed (_ :: pids), .readFailed => some (system.goOn loop (.listed pids))
  | .reading pid (env :: events) pids, .publish ok => system.publish decode loop pid env events pids ok
  | .reading pid (env :: events) pids, .skip => system.skip decode loop pid env events pids
  | .published pid env events pids, .record =>
    let recorded := { loop with
      pidOffsets := loop.pidOffsets.insert pid env.sequenceNr
      published := loop.published + 1 }
    some (system.goOn recorded (.reading pid events pids))
  | .reading _ [] pids, .next => some (system.goOn loop (.listed pids))
  | .listed [], .save =>
    let saved := { system with store := InMemoryOffsetStore.save system.store loop.pidOffsets }
    some (saved.goOn loop .idle)
  | _, _ => none

def step (system : OutboxSystem Event) :
    OutboxAction → Option (OutboxSystem Event)
  | .append env => (system.log.append env).map fun log => { system with log }
  | .start =>
    match system.loop with
    | none => some { system with loop := some ⟨system.store, 0, .idle⟩ }
    | some _ => none
  | .loop action => system.loop.bind fun loop => system.loopStep decode loop loop.phase action
  | .crash => some { system with loop := none }

end OutboxSystem

end Atomr.Patterns
