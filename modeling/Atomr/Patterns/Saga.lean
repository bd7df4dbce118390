import Atomr.Library.Runs
import Atomr.Library.Table

/-! The saga runner and the store of its states.

The runner keeps the state of each correlation id in memory and saves it after every event
that was handled. A new runner reads the saved states back before its first event.
-/

namespace Atomr.Patterns

open Library Table

inductive SagaAction (Command : Type) where
  | send (command : Command)
  | schedule (command : Command) (delay : Nat)
  | compensate (commands : List Command)
  | complete
  deriving DecidableEq, Repr

/-- A saga has fields of its own, and changes the state it is given in place. -/
structure Saga (Self Event Command State Err : Type) where
  correlationId : Event → Option String
  handle : Self → State → Event → Self × State × Except Err (List (SagaAction Command))
  encodeState : State → Option (Except String (List UInt8))
  decodeState : List UInt8 → Except String State

class SagaStateStore (Store : Type) where
  load : Store → (correlationId : String) → Option (List UInt8)
  save : Store → (correlationId : String) → List UInt8 → Store
  delete : Store → (correlationId : String) → Store
  keys : Store → List String

structure InMemorySagaStateStore where
  inner : Table String (List UInt8)

instance : SagaStateStore InMemorySagaStateStore where
  load store correlationId := store.inner.lookup correlationId
  save store correlationId payload := ⟨store.inner.insert correlationId payload⟩
  delete store correlationId := ⟨store.inner.erase correlationId⟩
  keys store := store.inner.keys

/-- The runner's task, with what it gave to the dispatcher, at once and after a delay. -/
structure SagaRunner (Self Command State Store : Type) where
  saga : Self
  states : Table String State
  store : Store
  dispatched : List Command
  scheduled : List (Command × Nat)

variable {Self Event Command State Err Store : Type}

/-- The commands dispatched and scheduled, and whether the saga is done. Nothing is done after `Complete`. -/
def SagaAction.perform : List (SagaAction Command) → List Command × List (Command × Nat) × Bool
  | [] => ([], [], false)
  | .send command :: rest =>
    let (dispatched, scheduled, completed) := perform rest
    (command :: dispatched, scheduled, completed)
  | .schedule command delay :: rest =>
    let (dispatched, scheduled, completed) := perform rest
    (dispatched, (command, delay) :: scheduled, completed)
  | .compensate commands :: rest =>
    let (dispatched, scheduled, completed) := perform rest
    (commands ++ dispatched, scheduled, completed)
  | .complete :: _ => ([], [], true)

namespace SagaRunner

variable [SagaStateStore Store] [Inhabited State] (saga : Saga Self Event Command State Err)

/-- Read one saved state back. One that does not decode is dropped. -/
def rehydrateOne (store : Store) (states : Table String State) (corr : String) : Table String State :=
  match SagaStateStore.load store corr with
  | none => states
  | some payload =>
    match saga.decodeState payload with
    | .ok state => states.insert corr state
    | .error _ => states

def rehydrate (store : Store) : Table String State :=
  if (saga.encodeState default).isSome then (SagaStateStore.keys store).foldl (rehydrateOne saga store) ∅ else ∅

def start (self : Self) (store : Store) : SagaRunner Self Command State Store :=
  ⟨self, rehydrate saga store, store, [], []⟩

variable (runner : SagaRunner Self Command State Store)

def stateOf (corr : String) : State := (runner.states.lookup corr).getD default

/-- The state is saved before any command is dispatched. -/
def persist (corr : String) (state : State) : Store :=
  match saga.encodeState state with
  | some (.ok payload) => SagaStateStore.save runner.store corr payload
  | _ => runner.store

def process (event : Event) : SagaRunner Self Command State Store :=
  match saga.correlationId event with
  | none => runner
  | some corr =>
    match saga.handle runner.saga (runner.stateOf corr) event with
    -- The changed state stays in memory.
    | (self, state, .error _) => { runner with saga := self, states := runner.states.insert corr state }
    | (self, state, .ok actions) =>
      let (dispatched, scheduled, completed) := SagaAction.perform actions
      let store := runner.persist saga corr state
      { saga := self
        states := if completed then (runner.states.insert corr state).erase corr else runner.states.insert corr state
        store := if completed then SagaStateStore.delete store corr else store
        dispatched := runner.dispatched ++ dispatched
        scheduled := runner.scheduled ++ scheduled }

def step (event : Event) : Option (SagaRunner Self Command State Store) := some (runner.process saga event)

end SagaRunner

inductive SagaRunner.Effect [SagaStateStore Store] [Inhabited State] (saga : Saga Self Event Command State Err)
    (runner : SagaRunner Self Command State Store) (event : Event) : Table String State → Store → Prop where
  | ignored : Effect saga runner event runner.states runner.store
  | failed {corr : String} {self : Self} {state : State} {error : Err} :
      saga.correlationId event = some corr →
      saga.handle runner.saga (runner.stateOf corr) event = (self, state, .error error) →
      Effect saga runner event (runner.states.insert corr state) runner.store
  | saved {corr : String} {state : State} :
      Effect saga runner event (runner.states.insert corr state) (runner.persist saga corr state)
  | completed {corr : String} {state : State} :
      Effect saga runner event ((runner.states.insert corr state).erase corr)
        (SagaStateStore.delete (runner.persist saga corr state) corr)

theorem SagaRunner.process_effect [SagaStateStore Store] [Inhabited State] (saga : Saga Self Event Command State Err)
    (rn : SagaRunner Self Command State Store) (ev : Event) :
    rn.Effect saga ev (rn.process saga ev).states (rn.process saga ev).store := by
  unfold SagaRunner.process
  split
  · exact .ignored
  next corr addressed =>
    split
    next hh => exact .failed addressed hh
    next self st acts hh =>
      simp only
      cases (SagaAction.perform acts).2.2 with
      | true => exact .completed
      | false => exact .saved

namespace SagaRunner

variable (saga : Saga Self Event Command State Err) (store : InMemorySagaStateStore)

def savedState (corr : String) : Option State :=
  (store.inner.lookup corr).bind fun payload => (saga.decodeState payload).toOption

theorem savedState_save (corr other : String) (p : List UInt8) :
    savedState saga (SagaStateStore.save store corr p) other =
      if other = corr then (saga.decodeState p).toOption else savedState saga store other := by
  simp only [savedState, SagaStateStore.save, lookup_insert_if]
  split <;> rfl

theorem savedState_delete (corr other : String) :
    savedState saga (SagaStateStore.delete store corr) other =
      if other = corr then none else savedState saga store other := by
  simp only [savedState, SagaStateStore.delete, lookup_erase_if]
  split <;> rfl

theorem lookup_rehydrateOne (states : Table String State) (corr other : String) :
    (rehydrateOne saga store states corr).lookup other =
      if other = corr then (savedState saga store other).or (states.lookup other) else states.lookup other := by
  have loads : SagaStateStore.load store corr = store.inner.lookup corr := rfl
  unfold rehydrateOne
  rw [loads]
  by_cases eq : other = corr
  · subst eq
    cases h : store.inner.lookup other with
    | none => simp [savedState, h]
    | some p =>
      cases dec : saga.decodeState p with
      | error m => simp [savedState, h, dec, Except.toOption]
      | ok st => simp [savedState, h, dec, Except.toOption]
  · rw [if_neg eq]
    split
    · rfl
    · split
      · exact AList.lookup_insert_ne eq
      · rfl

theorem lookup_foldl_rehydrateOne (keys : List String) (states : Table String State) (corr : String) :
    (keys.foldl (rehydrateOne saga store) states).lookup corr =
      if corr ∈ keys then (savedState saga store corr).or (states.lookup corr) else states.lookup corr := by
  induction keys generalizing states with
  | nil => simp
  | cons k keys ih =>
    rw [List.foldl_cons, ih, lookup_rehydrateOne]
    by_cases first : corr = k
    · cases savedState saga store corr <;> simp [first]
    · simp [first]

theorem savedState_persist (encodes : ∀ st, ∃ p, saga.encodeState st = some (.ok p))
    (inv : ∀ st p, saga.encodeState st = some (.ok p) → saga.decodeState p = .ok st)
    (rn : SagaRunner Self Command State InMemorySagaStateStore) (corr other : String) (st : State) :
    savedState saga (rn.persist saga corr st) other =
      if other = corr then some st else savedState saga rn.store other := by
  obtain ⟨p, enc⟩ := encodes st
  have stored : rn.persist saga corr st = SagaStateStore.save rn.store corr p := by
    simp [persist, enc]
  rw [stored, savedState_save, inv st p enc]
  rfl

variable [Inhabited State]

theorem lookup_rehydrate (enc : (saga.encodeState default).isSome) (s : InMemorySagaStateStore) (corr : String) :
    (rehydrate saga s).lookup corr = savedState saga s corr := by
  rw [rehydrate, if_pos enc, lookup_foldl_rehydrateOne]
  split
  · simp
  next ha =>
    have nothing : s.inner.lookup corr = none := AList.lookup_eq_none.mpr fun known => ha known
    simp [savedState, nothing]

/-- What a restart would read back is what is in memory, up to defaults. -/
def InSync (states : Table String State) (store : InMemorySagaStateStore) : Prop :=
  ∀ corr, (states.lookup corr).getD default = (savedState saga store corr).getD default

/-- The handler succeeds on the event or leaves the state as it was. -/
def FailsCleanly (runner : SagaRunner Self Command State Store) (event : Event) : Prop :=
  ∀ corr ∈ saga.correlationId event,
    (saga.handle runner.saga (runner.stateOf corr) event).2.2.isOk ∨
      (saga.handle runner.saga (runner.stateOf corr) event).2.1 = runner.stateOf corr

instance [DecidableEq State] (runner : SagaRunner Self Command State Store) (event : Event) :
    Decidable (runner.FailsCleanly saga event) :=
  inferInstanceAs (Decidable (∀ corr ∈ saga.correlationId event, _))

variable {saga}

theorem InSync.process {rn : SagaRunner Self Command State InMemorySagaStateStore}
    (inSync : InSync saga rn.states rn.store)
    (enc : ∀ st, ∃ p, saga.encodeState st = some (.ok p))
    (inv : ∀ st p, saga.encodeState st = some (.ok p) → saga.decodeState p = .ok st)
    {ev : Event} (clean : rn.FailsCleanly saga ev) :
    InSync saga (rn.process saga ev).states (rn.process saga ev).store := by
  have eff := rn.process_effect saga ev
  generalize (rn.process saga ev).states = states at eff
  generalize (rn.process saga ev).store = s at eff
  intro other
  cases eff with
  | ignored => exact inSync other
  | @failed corr self st err addressed hh =>
    have kept : st = rn.stateOf corr := by
      simpa [hh, Except.toBool] using clean corr addressed
    rw [lookup_insert_if]
    split
    next eq => rw [kept, eq]; exact inSync corr
    · exact inSync other
  | saved =>
    rw [lookup_insert_if, savedState_persist saga enc inv]
    split
    · rfl
    · exact inSync other
  | completed =>
    rw [lookup_erase_if, savedState_delete, lookup_insert_if, savedState_persist saga enc inv]
    split
    · rfl
    · exact inSync other

end SagaRunner

/-- Along events whose handlers fail cleanly, a runner started on the same store has the same state
for every correlation id. -/
theorem restart_keeps_states [Inhabited State] {saga : Saga Self Event Command State Err}
    (encodes : ∀ state, ∃ payload, saga.encodeState state = some (.ok payload))
    (inverts : ∀ state payload, saga.encodeState state = some (.ok payload) → saga.decodeState payload = .ok state)
    {self fresh : Self} {store : InMemorySagaStateStore} {events : List Event}
    {runner : SagaRunner Self Command State InMemorySagaStateStore}
    (run : Run (SagaRunner.step saga) (SagaRunner.FailsCleanly saga) (.start saga self store) events runner)
    (corr : String) :
    (SagaRunner.start saga fresh runner.store).stateOf corr = runner.stateOf corr := by
  have present : (saga.encodeState default).isSome := by
    obtain ⟨payload, encoded⟩ := encodes default
    simp [encoded]
  have rehydrated (store : InMemorySagaStateStore) : SagaRunner.InSync saga (SagaRunner.rehydrate saga store) store := by
    intro corr
    rw [SagaRunner.lookup_rehydrate saga present]
  have inSync := run.invariant (fun runner => SagaRunner.InSync saga runner.states runner.store)
    (fun _ _ _ holds clean taken => Option.some.inj taken ▸ holds.process encodes inverts clean) (rehydrated store)
  exact (rehydrated runner.store corr).trans (inSync corr).symm

/-- A saga that counts to two. One that is told to stop notes that it was there, and fails. -/
def countingSaga : Saga Unit (String × Bool) Unit UInt8 String where
  correlationId event := some event.1
  handle self count event :=
    if !event.2 then (self, max count 1, .error "stopped")
    else if count = 2 then (self, count, .ok [.send (), .complete])
    else (self, count + 1, .ok [])
  encodeState count := some (.ok [count])
  decodeState
    | [count] => .ok count
    | _ => .error "length"

def emptySagaStore : InMemorySagaStateStore := ⟨∅⟩

def countedEvents : List (String × Bool) := [("a", true), ("b", true), ("a", false), ("a", true), ("a", true)]

theorem restart_keeps_states_counting :
    ∃ runner, Run (SagaRunner.step countingSaga) (SagaRunner.FailsCleanly countingSaga)
        (.start countingSaga () emptySagaStore) countedEvents runner ∧
      runner.stateOf "a" = 0 ∧ runner.stateOf "b" = 1 ∧
      ∀ corr, (SagaRunner.start countingSaga () runner.store).stateOf corr = runner.stateOf corr := by
  have inverts : ∀ (count : UInt8) payload, countingSaga.encodeState count = some (.ok payload) →
      countingSaga.decodeState payload = .ok count := by
    intro count payload encoded
    cases encoded
    rfl
  exact Run.executed rfl fun run =>
    ⟨by decide +kernel, by decide +kernel, restart_keeps_states (fun count => ⟨[count], rfl⟩) inverts run⟩

/-- A handler that fails after it changed the state: the change is in memory and not in the store. -/
theorem failed_handler_state_lost :
    let runner := (SagaRunner.start countingSaga () emptySagaStore).process countingSaga ("a", false)
    runner.stateOf "a" = 1 ∧ (SagaRunner.start countingSaga () runner.store).stateOf "a" = 0 := by
  decide +kernel

end Atomr.Patterns
