import Atomr.Library.History
import Atomr.Library.Runs
import Mathlib.Algebra.Ring.Nat
import Mathlib.Data.List.Infix

/-! Sources that wait: for a clock, or for the consumer.

A poll runs an operator until it gives an element, ends or has to wait, and the next poll goes on from there. What an
operator can wait for are steps of their own: upstream, the clock, the calls of the consumer.
-/

namespace Atomr.Streams

open Library List

inductive Gate (T : Type) where
  | priming
  | peeked (item : Option T)
  | sleeping (item : T)
  | releasing (item : T)
  | ended
  deriving DecidableEq

/-- `produced` has all elements of upstream so far, `emitted` those given, each with the clock of that moment. -/
structure ClockGated (T : Type) where
  inner : List T
  upstreamEnded : Bool
  clock : Nat
  gate : Gate T
  produced : List T
  emitted : List (T × Nat)

inductive ClockEvent (T : Type) where
  | produce (item : T)
  | finish
  | advance (now : Nat)
  | poll (slept : Bool)

def Gate.held {T : Type} : Gate T → List T
  | .peeked (some item) | .sleeping item | .releasing item => [item]
  | _ => []

namespace ClockGated

variable {T : Type} (eventTime : T → Nat)

def new : ClockGated T := ⟨[], false, 0, .priming, [], []⟩

/-- The element is given once `next` on upstream is ready. -/
def release (state : ClockGated T) (item : T) : ClockGated T :=
  match state.inner with
  | next :: rest =>
    { state with inner := rest, gate := .peeked (some next), emitted := state.emitted ++ [(item, state.clock)] }
  | [] =>
    if state.upstreamEnded then { state with gate := .peeked none, emitted := state.emitted ++ [(item, state.clock)] }
    else { state with gate := .releasing item }

def check (state : ClockGated T) (item : T) : ClockGated T :=
  if state.clock ≥ eventTime item then state.release item else { state with gate := .sleeping item }

def poll (state : ClockGated T) (slept : Bool) : ClockGated T :=
  match state.gate with
  | .priming =>
    match state.inner with
    | item :: rest => check eventTime { state with inner := rest } item
    | [] => if state.upstreamEnded then { state with gate := .ended } else state
  | .peeked (some item) => state.check eventTime item
  | .peeked none => { state with gate := .ended }
  | .sleeping item => if slept then state.check eventTime item else state
  | .releasing item => state.release item
  | .ended => state

def step (state : ClockGated T) : ClockEvent T → Option (ClockGated T)
  | .produce item =>
    if state.upstreamEnded then none
    else some { state with inner := state.inner ++ [item], produced := state.produced ++ [item] }
  | .finish => some { state with upstreamEnded := true }
  | .advance now => some { state with clock := now }
  | .poll slept => some (state.poll eventTime slept)

def Advances (state : ClockGated T) : ClockEvent T → Prop
  | .advance now => state.clock ≤ now
  | _ => True

instance (state : ClockGated T) (event : ClockEvent T) : Decidable (Advances state event) := by
  cases event <;> unfold Advances <;> infer_instance

/-- What was given, with the element in hand and what is still to be pulled, is what upstream produced. -/
structure Giving (state : ClockGated T) (held : List T) : Prop where
  whole : state.emitted.map (·.1) ++ (held ++ state.inner) = state.produced
  due : ∀ given ∈ state.emitted, eventTime given.1 ≤ given.2

structure Gated (state : ClockGated T) : Prop extends Giving eventTime state state.gate.held where
  checked : ∀ item, state.gate = .releasing item → eventTime item ≤ state.clock
  closed : state.gate = .peeked none ∨ state.gate = .ended → state.upstreamEnded ∧ state.inner = []

variable {eventTime} {state next : ClockGated T} {item : T} {actions : List (ClockEvent T)}

theorem Giving.release (giving : Giving eventTime state [item]) (due : eventTime item ≤ state.clock) :
    Gated eventTime (state.release item) := by
  have given : ∀ given ∈ state.emitted ++ [(item, state.clock)], eventTime given.1 ≤ given.2 :=
    forall_mem_append.mpr ⟨giving.due, forall_mem_singleton.mpr due⟩
  have whole := giving.whole
  unfold ClockGated.release
  split
  next next rest more =>
    rw [more] at whole
    exact ⟨⟨by simpa [Gate.held] using whole, given⟩, nofun, nofun⟩
  next empty =>
    split
    next ended => exact ⟨⟨by simpa [Gate.held, empty] using whole, given⟩, nofun, fun _ => ⟨ended, empty⟩⟩
    · exact ⟨⟨by simpa [Gate.held, empty] using whole, giving.due⟩, fun _ eq => by cases eq; exact due, nofun⟩

theorem Giving.check (giving : Giving eventTime state [item]) : Gated eventTime (state.check eventTime item) := by
  unfold ClockGated.check
  split
  next due => exact giving.release due
  · exact ⟨⟨giving.whole, giving.due⟩, nofun, nofun⟩

theorem Gated.poll (gated : Gated eventTime state) (slept : Bool) : Gated eventTime (state.poll eventTime slept) := by
  have giving : Giving eventTime state state.gate.held := gated.toGiving
  unfold ClockGated.poll
  split
  next priming =>
    rw [priming] at giving
    split
    next x rest more => exact Giving.check ⟨by simpa [Gate.held, more] using giving.whole, giving.due⟩
    next empty =>
      split
      next ended => exact ⟨⟨giving.whole, giving.due⟩, nofun, fun _ => ⟨ended, empty⟩⟩
      · exact gated
  next x peeked =>
    rw [peeked] at giving
    exact giving.check
  next peeked =>
    rw [peeked] at giving
    exact ⟨⟨giving.whole, giving.due⟩, nofun, fun _ => gated.closed (.inl peeked)⟩
  next x sleeping =>
    rw [sleeping] at giving
    split
    · exact giving.check
    · exact gated
  next x releasing =>
    rw [releasing] at giving
    exact giving.release (gated.checked x releasing)
  · exact gated

theorem Gated.step {ev : ClockEvent T} (gated : Gated eventTime state) (advances : Advances state ev)
    (taken : step eventTime state ev = some next) : Gated eventTime next := by
  cases ev with
  | produce x =>
    dsimp only [ClockGated.step] at taken
    split at taken <;> cases taken
    next hr =>
      refine ⟨⟨?_, gated.due⟩, gated.checked, fun ended => absurd (gated.closed ended).1 hr⟩
      rw [← gated.whole, append_assoc, append_assoc]
  | finish =>
    cases taken
    exact ⟨⟨gated.whole, gated.due⟩, gated.checked, fun ended => ⟨rfl, (gated.closed ended).2⟩⟩
  | advance t =>
    cases taken
    exact ⟨⟨gated.whole, gated.due⟩, fun x eq => (gated.checked x eq).trans advances, gated.closed⟩
  | poll slept =>
    cases taken
    exact gated.poll slept

theorem release_gives_iff : (state.release item).emitted = state.emitted ++ [(item, state.clock)] ↔
    state.inner ≠ [] ∨ state.upstreamEnded := by
  unfold release
  split
  next more => simp [more]
  next empty => split <;> simp_all

theorem check_gives_iff (due : eventTime item ≤ state.clock) :
    (state.check eventTime item).emitted = state.emitted ++ [(item, state.clock)] ↔ state.inner ≠ [] ∨ state.upstreamEnded := by
  rw [check, if_pos due]
  exact release_gives_iff

theorem Gated.poll_gives_iff (gated : Gated eventTime state) {rest : List T}
    (left : state.gate.held ++ state.inner = item :: rest) (due : eventTime item ≤ state.clock) :
    (state.poll eventTime true).emitted = state.emitted ++ [(item, state.clock)] ↔ rest ≠ [] ∨ state.upstreamEnded := by
  have closed := gated.closed
  unfold ClockGated.poll
  split
  next priming =>
    rw [priming] at left
    rw [show state.inner = item :: rest from left]
    exact check_gives_iff due
  next peeked =>
    rw [peeked] at left
    cases left
    exact check_gives_iff due
  next peeked =>
    rw [peeked, (closed (.inl peeked)).2] at left
    cases left
  next sleeping =>
    rw [sleeping] at left
    cases left
    exact check_gives_iff due
  next releasing =>
    rw [releasing] at left
    cases left
    exact release_gives_iff
  next ended =>
    rw [ended, (closed (.inr ended)).2] at left
    cases left

theorem clock_gate_iff {eventTime : T → Nat} {actions : List (ClockEvent T)} {state : ClockGated T}
    (run : Run (step eventTime) Advances .new actions state) :
    state.emitted.map (·.1) <+: state.produced ∧ (∀ given ∈ state.emitted, eventTime given.1 ≤ given.2) ∧
      ∀ item, state.produced[state.emitted.length]? = some item → eventTime item ≤ state.clock →
        ((state.poll eventTime true).emitted = state.emitted ++ [(item, state.clock)] ↔
          state.emitted.length + 1 < state.produced.length ∨ state.upstreamEnded) := by
  have gated : Gated eventTime state :=
    run.invariant (Gated eventTime) (fun _ _ _ gated advances taken => gated.step advances taken)
      ⟨⟨rfl, forall_mem_nil _⟩, nofun, nofun⟩
  refine ⟨⟨_, gated.whole⟩, gated.due, fun item next due => ?_⟩
  have whole := gated.whole
  rw [← whole] at next ⊢
  rw [← length_map (·.1), List.getElem?_append_right (Nat.le_refl _), Nat.sub_self] at next
  obtain ⟨rest, left⟩ : ∃ rest, state.gate.held ++ state.inner = item :: rest := by
    cases shape : state.gate.held ++ state.inner with
    | nil =>
      rw [shape] at next
      cases next
    | cons first rest =>
      rw [shape] at next
      cases next
      exact ⟨rest, rfl⟩
  rw [gated.poll_gives_iff left due, left]
  simp [length_pos_iff]

theorem clock_gate_two_due : ∃ state, Run (step id) Advances .new [.produce 1, .produce 3, .poll false, .advance 2] state ∧
    (state.poll id true).emitted = [(1, 2)] := by
  obtain ⟨state, run, emitted, produced, clock⟩ : ∃ state : ClockGated Nat,
      Run (step id) Advances .new [.produce 1, .produce 3, .poll false, .advance 2] state ∧
        state.emitted = [] ∧ state.produced = [1, 3] ∧ state.clock = 2 := Run.exists_of_foldlM (by decide)
  have gives := (clock_gate_iff run).2.2 1 (by rw [emitted, produced]; rfl) (by rw [clock]; decide)
  rw [emitted, produced, clock] at gives
  exact ⟨state, run, gives.mpr (.inl (by decide))⟩

/-- The only element is due, and a poll waits for another. -/
theorem clock_gate_holds_back : ∃ state : ClockGated Nat, Run (step id) Advances .new [.produce 1, .advance 1] state ∧
    state.produced[state.emitted.length]? = some 1 ∧ id 1 ≤ state.clock ∧ (state.poll id true).emitted = [] :=
  Run.exists_of_foldlM (by decide)

end ClockGated

/-- What happened: `next` on upstream was called for an element, an element was given with a token, `ack` was called. -/
inductive LockEvent where
  | pulled (number : Nat)
  | emitted (number token : Nat)
  | acked (token : Nat)
  deriving DecidableEq

/-- `pulling` says that `next` on upstream was called and is not ready yet; `count` counts the elements given. -/
structure StepLocked (T : Type) where
  inner : List T
  ackRx : List Nat
  sinkDropped : Bool
  nextToken : Nat
  pending : Option Nat
  pulling : Bool
  ended : Bool
  count : Nat
  log : List LockEvent

inductive LockAction where
  | ack (token : Nat)
  | dropSink
  | poll (ready : Bool)

namespace StepLocked

variable {T : Type}

def new (input : List T) : StepLocked T := ⟨input, [], false, 0, none, false, false, 0, []⟩

def pull (state : StepLocked T) : StepLocked T :=
  { state with pending := none, pulling := true, log := state.log ++ [.pulled state.count] }

def give (state : StepLocked T) (ready : Bool) : StepLocked T :=
  if ready then
    match state.inner with
    | [] => { state with ended := true }
    | _ :: rest =>
      let token := state.nextToken
      { state with
        inner := rest
        nextToken := (state.nextToken + 1) % 2 ^ 64
        pending := some token
        pulling := false
        count := state.count + 1
        log := state.log ++ [.emitted state.count token] }
  else state

def poll (state : StepLocked T) (ready : Bool) : StepLocked T :=
  if state.pulling then state.give ready
  else if state.pending.isSome then
    match state.ackRx with
    | _ :: rest => { state with ackRx := rest }.pull.give ready
    | [] => if state.sinkDropped then { state with ended := true } else state
  else state.pull.give ready

def step (state : StepLocked T) : LockAction → Option (StepLocked T)
  | .ack token =>
    if state.sinkDropped then none else some { state with ackRx := state.ackRx ++ [token], log := state.log ++ [.acked token] }
  | .dropSink => some { state with sinkDropped := true }
  | .poll ready => if state.ended then none else some (state.poll ready)

def AckedAfter (log : List LockEvent) (number : Nat) : Prop :=
  ∃ before token after, log = before ++ .emitted number token :: after ∧ .acked token ∈ after

def LockStep : List LockEvent → Prop :=
  Justified fun before event => ∀ number, event = .pulled (number + 1) → AckedAfter before number

/-- `ack` is called with the token of the element given last, and once. -/
def Orderly (state : StepLocked T) : LockAction → Prop
  | .ack token => state.pending = some token ∧ state.ackRx = []
  | _ => True

instance (state : StepLocked T) (action : LockAction) : Decidable (Orderly state action) := by
  cases action <;> unfold Orderly <;> infer_instance

structure Locked (state : StepLocked T) : Prop where
  lockStep : LockStep state.log
  single : state.ackRx.length ≤ 1
  idle : state.pending = none → state.ackRx = [] ∧ (state.pulling = true ∨ state.count = 0)
  waits : ∀ token ∈ state.pending, state.pulling = false ∧ ∃ number before after, state.count = number + 1 ∧
    state.log = before ++ .emitted number token :: after ∧ (state.ackRx ≠ [] → .acked token ∈ after)

variable {state next : StepLocked T} {actions : List LockAction} {input : List T}

theorem locked_give (lockStep : LockStep state.log) (pending : state.pending = none) (acks : state.ackRx = [])
    (pulling : state.pulling = true) (ready : Bool) : Locked (state.give ready) := by
  have asking : Locked state := ⟨lockStep, by simp [acks], fun _ => ⟨acks, .inl pulling⟩, by simp [pending]⟩
  unfold give
  split
  · split
    · exact { asking with }
    · refine ⟨lockStep.snoc nofun, asking.single, nofun, ?_⟩
      rintro _ ⟨⟩
      exact ⟨rfl, state.count, state.log, [], rfl, rfl, fun some => absurd acks some⟩
  · exact asking

theorem locked_pull (lockStep : LockStep state.log) (acks : state.ackRx = [])
    (acked : ∀ num, state.count = num + 1 → AckedAfter state.log num) (ready : Bool) :
    Locked (state.pull.give ready) := by
  have pulled : LockStep state.pull.log := lockStep.snoc fun num eq => acked num (LockEvent.pulled.inj eq)
  exact locked_give pulled rfl acks rfl ready

theorem Locked.poll (locked : Locked state) (ready : Bool) : Locked (state.poll ready) := by
  unfold StepLocked.poll
  split
  next pulling =>
    cases pending : state.pending with
    | none => exact locked_give locked.lockStep pending (locked.idle pending).1 pulling ready
    | some token => exact absurd pulling (Bool.eq_false_iff.mp (locked.waits token pending).1)
  next resting =>
    split
    next some =>
      obtain ⟨token, pending⟩ := Option.isSome_iff_exists.mp some
      obtain ⟨-, num, pre, post, count, log, acked⟩ := locked.waits token pending
      split
      next ack rest acks =>
        have last : rest = [] := by
          have single := locked.single
          rw [acks, length_cons] at single
          exact length_eq_zero_iff.mp (by omega)
        refine @locked_pull _ { state with ackRx := rest } locked.lockStep last (fun other eq => ?_) ready
        cases count.symm.trans eq
        exact ⟨pre, token, post, log, acked (by rw [acks]; exact cons_ne_nil _ _)⟩
      · split
        · exact { locked with }
        · exact locked
    next none =>
      obtain ⟨acks, first⟩ := locked.idle (Option.not_isSome_iff_eq_none.mp none)
      refine locked_pull locked.lockStep acks (fun num some => ?_) ready
      rw [first.resolve_left resting] at some
      cases some

theorem Locked.step {act : LockAction} (locked : Locked state) (ord : Orderly state act)
    (taken : step state act = some next) : Locked next := by
  cases act with
  | ack token =>
    dsimp only [StepLocked.step] at taken
    split at taken <;> cases taken
    obtain ⟨pending, acks⟩ := ord
    obtain ⟨resting, num, pre, post, count, log, -⟩ := locked.waits token pending
    refine ⟨locked.lockStep.snoc nofun, by simp [acks], fun none => ?_, ?_⟩
    · rw [pending] at none
      cases none
    intro other h
    rw [pending] at h
    cases h
    refine ⟨resting, num, pre, post ++ [.acked token], count, ?_, fun _ => mem_concat_self⟩
    rw [log, append_assoc]
    rfl
  | dropSink =>
    cases taken
    exact { locked with }
  | poll ready =>
    dsimp only [StepLocked.step] at taken
    split at taken <;> cases taken
    exact locked.poll ready

theorem lock_step_orderly {input : List T} {actions : List LockAction} {state : StepLocked T}
    (run : Run step Orderly (.new input) actions state) : LockStep state.log :=
  (run.invariant Locked (fun _ _ _ locked orderly taken => locked.step orderly taken)
    ⟨.nil, Nat.zero_le _, fun _ => ⟨rfl, .inr rfl⟩, nofun⟩).lockStep

theorem lock_step_acked : ∃ state : StepLocked Nat,
    Run step Orderly (.new [7, 8]) [.poll true, .ack 0, .poll true] state ∧ .pulled 1 ∈ state.log ∧ LockStep state.log := by
  obtain ⟨state, run, pulled⟩ : ∃ state : StepLocked Nat,
      Run step Orderly (.new [7, 8]) [.poll true, .ack 0, .poll true] state ∧ .pulled 1 ∈ state.log :=
    Run.exists_of_foldlM (by decide)
  exact ⟨state, run, pulled, lock_step_orderly run⟩

/-- The token of the first element, acknowledged twice, lets two more be pulled. -/
theorem lock_step_twice_acked : ∃ state : StepLocked Nat,
    Run step (fun _ _ => True) (.new [7, 8, 9]) [.poll true, .ack 0, .ack 0, .poll true, .poll true] state ∧
      ¬ LockStep state.log := by
  obtain ⟨state, run, log⟩ : ∃ state : StepLocked Nat,
      Run step (fun _ _ => True) (.new [7, 8, 9]) [.poll true, .ack 0, .ack 0, .poll true, .poll true] state ∧
        state.log = [.pulled 0, .emitted 0 0, .acked 0, .acked 0, .pulled 1, .emitted 1 1] ++ .pulled 2 :: [.emitted 2 2] :=
    Run.exists_of_foldlM (by decide)
  refine ⟨state, run, fun lockStep => ?_⟩
  obtain ⟨pre, token, post, cut, acked⟩ := lockStep _ _ _ log 1 rfl
  obtain ⟨-, -, rfl⟩ : _ ∧ token = 1 ∧ post = [] := by simpa [cons_eq_append_iff] using cut
  cases acked

end StepLocked

end Atomr.Streams
