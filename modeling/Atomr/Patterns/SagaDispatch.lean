import Atomr.Patterns.Saga

/-! What the saga runner does with the answers of its dispatcher.

The dispatcher answers every command with whether it succeeded. The loop over the actions of a
handler awaits each answer and drops it, so a compensation is dispatched whether or not a command
before it has failed.
-/

namespace Atomr.Patterns

open Library List

inductive DispatchKind where
  | send
  | compensate
  deriving DecidableEq, Repr

/-- A call of the dispatcher: the place of its action in the list, the command and the answer. -/
structure Dispatch (Command : Type) where
  position : Nat
  kind : DispatchKind
  command : Command
  succeeded : Bool
  deriving DecidableEq, Repr

namespace Dispatch

variable {Command : Type} (results : Nat → Bool)

/-- The n-th call of the dispatcher is answered by the n-th result. -/
def await (position : Nat) (kind : DispatchKind) (trace : List (Dispatch Command)) (command : Command) :
    List (Dispatch Command) :=
  trace ++ [⟨position, kind, command, results trace.length⟩]

def loop : Nat → List (Dispatch Command) → List (SagaAction Command) → List (Dispatch Command) × Bool
  | _, trace, [] => (trace, false)
  | position, trace, .send command :: rest => loop (position + 1) (await results position .send trace command) rest
  -- A task of its own sleeps and then calls the dispatcher.
  | position, trace, .schedule _ _ :: rest => loop (position + 1) trace rest
  | position, trace, .compensate commands :: rest =>
    loop (position + 1) (commands.foldl (await results position .compensate) trace) rest
  | _, trace, .complete :: _ => (trace, true)

def ofActions (actions : List (SagaAction Command)) : List (Dispatch Command) := (loop results 0 [] actions).1

variable (trace : List (Dispatch Command))

def commandsAt (position : Nat) : List Command :=
  (trace.filter fun call => call.position = position).map Dispatch.command

def sent : List Command := (trace.filter fun call => call.kind = .send).map Dispatch.command

/-- A command of an earlier `Send` was answered with false. -/
def failedBefore (position : Nat) : Bool :=
  trace.any fun call => call.kind = .send && call.position < position && !call.succeeded

end Dispatch

namespace SagaAction

variable {Command : Type}

def isComplete : SagaAction Command → Bool
  | .complete => true
  | _ => false

def sent? : SagaAction Command → Option Command
  | .send command => some command
  | _ => none

def commands : SagaAction Command → List Command
  | .send command => [command]
  | .compensate commands => commands
  | .schedule _ _ | .complete => []

def reached (actions : List (SagaAction Command)) (position : Nat) : Bool :=
  (actions.take position).all fun action => !action.isComplete

/-- The calls of the dispatcher that a list of actions makes, in their order. -/
def calls : Nat → List (SagaAction Command) → List (Nat × DispatchKind × Command)
  | _, [] => []
  | position, .send command :: rest => (position, .send, command) :: calls (position + 1) rest
  | position, .schedule _ _ :: rest => calls (position + 1) rest
  | position, .compensate commands :: rest =>
    commands.map (fun command => (position, .compensate, command)) ++ calls (position + 1) rest
  | _, .complete :: _ => []

/-- The dispatcher answers an earlier `Send` with false. -/
def SendFails (results : Nat → Bool) (actions : List (SagaAction Command)) (position : Nat) : Prop :=
  ∃ call earlier command, (calls 0 actions)[call]? = some (earlier, .send, command) ∧ earlier < position ∧
    results call = false

theorem le_of_mem_calls {start : Nat} {actions : List (SagaAction Command)} {call : Nat × DispatchKind × Command}
    (mem : call ∈ calls start actions) : start ≤ call.1 := by
  induction actions generalizing start with
  | nil => cases mem
  | cons action rest ih =>
    cases action with
    | send command =>
      rcases mem_cons.mp mem with rfl | later
      · exact le_refl _
      · exact Nat.le_of_succ_le (ih later)
    | schedule command delay => exact Nat.le_of_succ_le (ih mem)
    | compensate commands =>
      rcases mem_append.mp mem with here | later
      · obtain ⟨command, -, rfl⟩ := mem_map.mp here
        exact le_refl _
      · exact Nat.le_of_succ_le (ih later)
    | complete => cases mem

theorem calls_at (start ahead : Nat) (actions : List (SagaAction Command)) :
    ((calls start actions).filter (·.1 = start + ahead)).map (·.2.2) =
      if reached actions ahead then (actions[ahead]?).elim [] commands else [] := by
  induction actions generalizing start ahead with
  | nil => simp [calls]
  | cons action rest ih =>
    cases ahead with
    | zero =>
      -- The later calls are for later actions.
      have later : (calls (start + 1) rest).filter (·.1 = start) = [] :=
        filter_eq_nil_iff.mpr fun call mem => by
          have := le_of_mem_calls mem
          simp only [decide_eq_true_eq]
          omega
      cases action <;> simp [calls, reached, commands, later, filter_map, Function.comp_def]
    | succ ahead =>
      have next := ih (start + 1) ahead
      rw [Nat.add_right_comm, Nat.add_assoc] at next
      cases action <;> simp [calls, reached, isComplete, next, filter_map, Function.comp_def]

theorem calls_sent (start : Nat) (actions : List (SagaAction Command)) :
    ((calls start actions).filter (·.2.1 = .send)).map (·.2.2) =
      (actions.takeWhile fun action => !action.isComplete).filterMap sent? := by
  induction actions generalizing start with
  | nil => rfl
  | cons action rest ih =>
    cases action <;> simp [calls, isComplete, filterMap_cons, sent?, ih, filter_map,
      Function.comp_def]

theorem calls_perform (start : Nat) (actions : List (SagaAction Command)) :
    (calls start actions).map (·.2.2) = (perform actions).1 := by
  induction actions generalizing start with
  | nil => rfl
  | cons action rest ih => cases action <;> simp [calls, perform, ih, Function.comp_def]

end SagaAction

namespace Dispatch

variable {Command : Type} {results : Nat → Bool}

theorem loop_calls (position : Nat) (trace : List (Dispatch Command)) (actions : List (SagaAction Command)) :
    (loop results position trace actions).1 =
      (SagaAction.calls position actions).foldl (fun trace call => await results call.1 call.2.1 trace call.2.2) trace := by
  induction actions generalizing position trace with
  | nil => rfl
  | cons action rest ih => cases action <;> simp [loop, SagaAction.calls, foldl_map, ih]

theorem foldl_await (calls : List (Nat × DispatchKind × Command)) (trace : List (Dispatch Command)) :
    calls.foldl (fun trace call => await results call.1 call.2.1 trace call.2.2) trace =
      trace ++ calls.mapIdx fun n call => ⟨call.1, call.2.1, call.2.2, results (trace.length + n)⟩ := by
  induction calls generalizing trace with
  | nil => simp
  | cons call rest ih =>
    rw [foldl_cons, ih]
    simp [await, mapIdx_cons, Nat.add_assoc, Nat.add_comm]

def call (dispatch : Dispatch Command) : Nat × DispatchKind × Command :=
  (dispatch.position, dispatch.kind, dispatch.command)

theorem getElem?_ofActions (results : Nat → Bool) (actions : List (SagaAction Command)) (n : Nat) :
    (ofActions results actions)[n]? =
      ((SagaAction.calls 0 actions)[n]?).map fun call => ⟨call.1, call.2.1, call.2.2, results n⟩ := by
  simp [ofActions, loop_calls, foldl_await]

theorem map_call (results : Nat → Bool) (actions : List (SagaAction Command)) :
    (ofActions results actions).map call = SagaAction.calls 0 actions := by
  refine ext_getElem? fun n => ?_
  rw [List.getElem?_map, getElem?_ofActions, Option.map_map]
  exact congrFun Option.map_id _

end Dispatch

open Dispatch

theorem SagaRunner.process_dispatched {Self Event Command State Err Store : Type} [SagaStateStore Store]
    [Inhabited State] (saga : Saga Self Event Command State Err) (runner : SagaRunner Self Command State Store)
    {event : Event} {corr : String} {self : Self} {state : State} {actions : List (SagaAction Command)}
    (addressed : saga.correlationId event = some corr)
    (handled : saga.handle runner.saga (runner.stateOf corr) event = (self, state, .ok actions)) (results : Nat → Bool) :
    (runner.process saga event).dispatched =
      runner.dispatched ++ (ofActions results actions).map Dispatch.command := by
  have performed := SagaAction.calls_perform 0 actions
  rw [← map_call results, map_map] at performed
  simp only [process, addressed, handled, ← performed]
  rfl

section Compensation
variable {Command : Type} (results : Nat → Bool) (actions : List (SagaAction Command))

theorem commandsAt_compensate {position : Nat} {commands : List Command}
    (found : actions[position]? = some (.compensate commands)) :
    commandsAt (ofActions results actions) position = if SagaAction.reached actions position then commands else [] := by
  have here := SagaAction.calls_at 0 position actions
  rw [Nat.zero_add, found, ← map_call results, filter_map, map_map] at here
  exact here

theorem failedBefore_iff (position : Nat) :
    failedBefore (ofActions results actions) position = true ↔ SagaAction.SendFails results actions position := by
  simp only [failedBefore, any_eq_true, mem_iff_getElem?, getElem?_ofActions, Option.map_eq_some_iff,
    Bool.and_eq_true, decide_eq_true_eq, Bool.not_eq_true']
  constructor
  · rintro ⟨_, ⟨call, ⟨earlier, kind, command⟩, listed, rfl⟩, ⟨rfl, before⟩, failed⟩
    exact ⟨call, earlier, command, listed, before, failed⟩
  · rintro ⟨call, earlier, command, listed, before, failed⟩
    exact ⟨_, ⟨call, _, listed, rfl⟩, ⟨rfl, before⟩, failed⟩

/-- A compensation is dispatched exactly after a failed command when every one that is reached and
has commands stands after a failed command. Commands to send are dispatched in their order anyway. -/
theorem saga_compensation :
    ((∀ position commands, actions[position]? = some (.compensate commands) →
        commandsAt (ofActions results actions) position =
          if SagaAction.reached actions position && failedBefore (ofActions results actions) position then commands
          else []) ↔
      ∀ position commands, actions[position]? = some (.compensate commands) → SagaAction.reached actions position →
        commands ≠ [] → SagaAction.SendFails results actions position) ∧
    sent (ofActions results actions) =
      (actions.takeWhile fun action => !action.isComplete).filterMap SagaAction.sent? := by
  refine ⟨forall_congr' fun position => forall_congr' fun commands => forall_congr' fun found => ?_, ?_⟩
  · rw [commandsAt_compensate results actions found, ← failedBefore_iff]
    cases SagaAction.reached actions position <;> cases failedBefore (ofActions results actions) position <;> simp
  · have order := SagaAction.calls_sent 0 actions
    rw [← map_call results, filter_map, map_map] at order
    exact order

end Compensation

/-- The payment fails, and is followed by its compensation and by nothing else. -/
theorem saga_compensation_failed_payment :
    commandsAt (ofActions (fun _ => false) [.send "pay", .compensate ["refund"], .complete, .send "ship"]) 1 = ["refund"] ∧
    sent (ofActions (fun _ => false) [.send "pay", .compensate ["refund"], .complete, .send "ship"]) = ["pay"] := by
  obtain ⟨driven, order⟩ :=
    saga_compensation (fun _ => false) [.send "pay", .compensate ["refund"], .complete, .send "ship"]
  refine ⟨driven.mpr (fun pos commands found _ _ => ?_) 1 ["refund"] rfl, order⟩
  match pos with
  | 0 | 2 | 3 => cases found
  | 1 => exact ⟨0, 0, "pay", rfl, by decide, rfl⟩
  | pos + 4 => cases found

/-- The payment succeeds and is refunded all the same. -/
theorem compensation_after_success :
    commandsAt (ofActions (fun _ => true) [.send "pay", .compensate ["refund"]]) 1 = ["refund"] ∧
    failedBefore (ofActions (fun _ => true) [.send "pay", .compensate ["refund"]]) 1 = false := by
  decide

end Atomr.Patterns
