import Atomr.Library.Runs
import Mathlib.Algebra.Ring.Nat

/-! The circuit breaker: what it shows and which calls it admits.

Both look at one packed word. The shown state also looks at the clock, and turns half-open
once the reset timeout has passed. Admission does not, so a breaker that has opened stays so.
Instants are nanoseconds since the epoch.
-/

namespace Atomr.Core

open Library

inductive CircuitBreakerState where
  | closed
  | opened
  | halfOpen
  deriving DecidableEq, Repr

inductive CircuitBreakerError (E : Type) where
  | opened
  | timeout
  | inner (error : E)
  deriving DecidableEq, Repr

inductive Ended (T E : Type) where
  | ok (value : T)
  | err (error : E)
  | elapsed
  deriving DecidableEq, Repr

/-- What a future resolves to, and after how long if ever. -/
structure Future (T E : Type) where
  duration : Option Nat
  result : Except E T

structure CircuitBreaker where
  maxFailures : Nat
  callTimeout : Nat
  resetTimeout : Nat
  failures : Nat
  openedAtNs : Nat
  /-- Packed: 0 is closed, 1 open, anything else half-open. -/
  packed : Nat
  deriving DecidableEq, Repr

/-- One call: its future, and the clock when it starts and when it has its result. -/
structure BreakerCall (T E : Type) where
  start : Nat
  finish : Nat
  future : Future T E

variable {T E : Type}

def Ended.result : Ended T E → Except (CircuitBreakerError E) T
  | .ok value => .ok value
  | .err error => .error (.inner error)
  | .elapsed => .error .timeout

def Future.resolved (future : Future T E) : Ended T E :=
  match future.result with
  | .ok value => .ok value
  | .error error => .err error

/-- A future that is ready at the deadline is polled first. -/
def timeout (limit : Nat) (future : Future T E) : Ended T E :=
  match future.duration with
  | some duration => if duration ≤ limit then future.resolved else .elapsed
  | none => .elapsed

namespace CircuitBreaker

def new (maxFailures callTimeout resetTimeout : Nat) : CircuitBreaker :=
  ⟨maxFailures, callTimeout, resetTimeout, 0, 0, 0⟩

/-- The nanoseconds are cast to 64 bits. -/
def elapsedNs (now : Nat) : Nat := now % 2 ^ 64

def state (breaker : CircuitBreaker) (now : Nat) : CircuitBreakerState :=
  if breaker.packed = 0 then .closed
  else if breaker.packed = 1 then
    if breaker.openedAtNs > 0 ∧ elapsedNs now - breaker.openedAtNs ≥ breaker.resetTimeout % 2 ^ 64 then .halfOpen
    else .opened
  else .halfOpen

def recordFailure (breaker : CircuitBreaker) (now : Nat) : CircuitBreaker :=
  let n := (breaker.failures + 1) % 2 ^ 32
  let counted := { breaker with failures := n }
  if n ≥ breaker.maxFailures then { counted with packed := 1, openedAtNs := elapsedNs now } else counted

def call (breaker : CircuitBreaker) (made : BreakerCall T E) :
    CircuitBreaker × Except (CircuitBreakerError E) T :=
  -- The clock is not read here.
  if breaker.packed = 1 then (breaker, .error .opened)
  else
    let ended := timeout breaker.callTimeout made.future
    match ended with
    | .ok _ => ({ breaker with failures := 0, packed := 0 }, ended.result)
    | .err _ | .elapsed => (breaker.recordFailure made.finish, ended.result)

/-- The answer of a call agrees with what the breaker shows when it is made: it is refused
exactly when the breaker shows itself open, and a half-open breaker runs the future and is
closed by its success. -/
structure Admission (breaker : CircuitBreaker) (made : BreakerCall T E) : Prop where
  refused : (breaker.call made).2 = .error .opened ↔ breaker.state made.start = .opened
  tried : breaker.state made.start = .halfOpen →
    (breaker.call made).2 = (timeout breaker.callTimeout made.future).result ∧
      ∀ value, timeout breaker.callTimeout made.future = .ok value → ∀ later, (breaker.call made).1.state later = .closed

theorem result_ne_opened (ended : Ended T E) : ended.result ≠ .error .opened := by
  cases ended <;> simp [Ended.result]

variable {breaker : CircuitBreaker}

theorem call_of_open (isOpen : breaker.packed = 1) (made : BreakerCall T E) :
    breaker.call made = (breaker, .error .opened) := by
  simp [call, isOpen]

theorem call_of_not_open (isOpen : breaker.packed ≠ 1) (made : BreakerCall T E) :
    (breaker.call made).2 = (timeout breaker.callTimeout made.future).result := by
  unfold call
  rw [if_neg isOpen]
  cases timeout breaker.callTimeout made.future <;> rfl

theorem refused_iff (br : CircuitBreaker) (made : BreakerCall T E) :
    (br.call made).2 = .error .opened ↔ br.packed = 1 := by
  constructor
  · intro refused
    by_contra isOpen
    rw [call_of_not_open isOpen] at refused
    exact result_ne_opened _ refused
  · intro isOpen
    rw [call_of_open isOpen]

/-- The word only ever says closed or open; half-open is computed. -/
def Packed (breaker : CircuitBreaker) : Prop := breaker.packed = 0 ∨ breaker.packed = 1

theorem recordFailure_cases (br : CircuitBreaker) (t : Nat) :
    (br.recordFailure t).resetTimeout = br.resetTimeout ∧
      ((br.recordFailure t).packed = br.packed ∨
        (br.recordFailure t).packed = 1 ∧ (br.recordFailure t).openedAtNs = elapsedNs t) := by
  unfold recordFailure
  dsimp only
  split
  · exact ⟨rfl, .inr ⟨rfl, rfl⟩⟩
  · exact ⟨rfl, .inl rfl⟩

theorem call_of_closed (isClosed : breaker.packed = 0) (made : BreakerCall T E) :
    (breaker.call made).1.resetTimeout = breaker.resetTimeout ∧
      ((breaker.call made).1.packed = 0 ∨
        (breaker.call made).1.packed = 1 ∧ (breaker.call made).1.openedAtNs = elapsedNs made.finish) := by
  have failed := breaker.recordFailure_cases made.finish
  rw [isClosed] at failed
  unfold call
  rw [if_neg (by omega)]
  cases timeout breaker.callTimeout made.future with
  | ok v => exact ⟨rfl, .inl rfl⟩
  | err error => exact failed
  | elapsed => exact failed

/-- The reset timeout has passed since the stored instant, if one was stored. -/
def Elapsed (openedAtNs resetTimeout now : Nat) : Prop :=
  0 < openedAtNs ∧ resetTimeout % 2 ^ 64 ≤ elapsedNs now - openedAtNs
deriving Decidable

theorem state_of_closed (isClosed : breaker.packed = 0) (t : Nat) :
    breaker.state t = .closed := if_pos isClosed

theorem state_of_open (isOpen : breaker.packed = 1) (t : Nat) :
    breaker.state t =
      if Elapsed breaker.openedAtNs breaker.resetTimeout t then .halfOpen else .opened := by
  unfold state
  rw [if_neg (by omega), if_pos isOpen]
  rfl

/-- What is shown and what is admitted differ exactly for an open breaker whose reset timeout has passed. -/
theorem admission_iff (word : breaker.Packed) (made : BreakerCall T E) :
    Admission breaker made ↔
      ¬ (breaker.packed = 1 ∧ Elapsed breaker.openedAtNs breaker.resetTimeout made.start) := by
  constructor
  · intro admission half
    obtain ⟨isOpen, elapsed⟩ := half
    have shown := admission.refused.mp ((refused_iff breaker made).mpr isOpen)
    rw [state_of_open isOpen, if_pos elapsed] at shown
    cases shown
  · intro fresh
    rcases word with isClosed | isOpen
    · have shown := state_of_closed isClosed made.start
      constructor
      · rw [refused_iff, shown, isClosed]
        simp
      · intro half
        rw [shown] at half
        cases half
    · have shown : breaker.state made.start = .opened := by
        rw [state_of_open isOpen, if_neg fun elapsed => fresh ⟨isOpen, elapsed⟩]
      constructor
      · rw [refused_iff, shown]
        simp [isOpen]
      · intro half
        rw [shown] at half
        cases half

end CircuitBreaker

/-- A breaker in use, with the time up to which calls were made and, as a record that no
call reads, the instant at which it opened. -/
structure BreakerUsage where
  breaker : CircuitBreaker
  clock : Nat
  openedAt : Option Nat

namespace BreakerUsage

open CircuitBreaker

def start (breaker : CircuitBreaker) : BreakerUsage := ⟨breaker, 0, none⟩

def step (usage : BreakerUsage) (made : BreakerCall T E) : Option BreakerUsage :=
  if usage.clock ≤ made.start ∧ made.start ≤ made.finish then
    let next := (usage.breaker.call made).1
    some { breaker := next
           clock := made.finish
           openedAt := if usage.breaker.packed ≠ 1 ∧ next.packed = 1 then some made.finish else usage.openedAt }
  else none

structure Tracked (resetTimeout : Nat) (usage : BreakerUsage) : Prop where
  word : usage.breaker.Packed
  timeout : usage.breaker.resetTimeout = resetTimeout
  closed : usage.breaker.packed = 0 → usage.openedAt = none
  opened : usage.breaker.packed = 1 →
    ∃ instant, usage.openedAt = some instant ∧ usage.breaker.openedAtNs = elapsedNs instant

theorem tracked_start (maxFailures callTimeout reset : Nat) :
    Tracked reset (start (.new maxFailures callTimeout reset)) where
  word := .inl rfl
  timeout := rfl
  closed _ := rfl
  opened isOpen := by cases isOpen

theorem Tracked.step {reset : Nat} {usage next : BreakerUsage} (htr : Tracked reset usage)
    {made : BreakerCall T E} (taken : usage.step made = some next) : Tracked reset next := by
  unfold BreakerUsage.step at taken
  split at taken
  · cases taken
    rcases htr.word with isClosed | isOpen
    · obtain ⟨timeout, stays | ⟨opens, instant⟩⟩ := call_of_closed isClosed made
      · exact ⟨.inl stays, timeout.trans htr.timeout, fun _ => by simp [stays, htr.closed isClosed],
          fun isOpen => (by cases stays.symm.trans isOpen)⟩
      · exact ⟨.inr opens, timeout.trans htr.timeout, fun isClosed => (by cases opens.symm.trans isClosed),
          fun _ => ⟨made.finish, by simp [isClosed, opens], instant⟩⟩
    · rw [call_of_open isOpen]
      simp only [isOpen]
      exact ⟨htr.word, htr.timeout, htr.closed, htr.opened⟩
  · cases taken

/-- A call is answered as the breaker shows itself unless the reset timeout has passed since
the breaker opened. -/
theorem admission_until_reset {maxFailures callTimeout resetTimeout : Nat} {calls : List (BreakerCall T E)}
    {usage : BreakerUsage}
    (run : Run step (fun _ _ => True) (start (.new maxFailures callTimeout resetTimeout)) calls usage)
    (made : BreakerCall T E) :
    Admission usage.breaker made ↔
      ¬ ∃ instant ∈ usage.openedAt, Elapsed (elapsedNs instant) resetTimeout made.start := by
  have tracked := run.invariant (Tracked resetTimeout) (fun _ _ _ kept _ taken => kept.step taken)
    (tracked_start maxFailures callTimeout resetTimeout)
  rw [admission_iff tracked.word, tracked.timeout]
  rcases tracked.word with isClosed | isOpen
  · simp [isClosed, tracked.closed isClosed]
  · obtain ⟨instant, recorded, stored⟩ := tracked.opened isOpen
    simp [isOpen, recorded, stored]

def oneFailure : List (BreakerCall Nat String) := [⟨5, 6, ⟨some 1, .error "down"⟩⟩]

theorem admission_before_reset :
    ∃ usage, Run step (fun _ _ => True) (start (.new 1 3 10)) oneFailure usage ∧
      Admission usage.breaker (⟨8, 9, ⟨some 1, .ok 7⟩⟩ : BreakerCall Nat String) := by
  exact Run.executed rfl fun run => (admission_until_reset run _).mpr (by decide)

/-- The reset timeout of 10 has passed, the breaker shows itself half-open and refuses the call. -/
theorem half_open_call_refused :
    ∃ usage, Run step (fun _ _ => True) (start (.new 1 3 10)) oneFailure usage ∧
      usage.breaker.state 100 = .halfOpen ∧
      (usage.breaker.call (⟨100, 101, ⟨some 1, .ok 7⟩⟩ : BreakerCall Nat String)).2 = .error .opened :=
  ⟨_, Run.of_foldlM rfl, by decide, by decide⟩

end BreakerUsage

end Atomr.Core
