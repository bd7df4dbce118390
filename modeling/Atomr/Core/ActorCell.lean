import Atomr.Library.History
import Atomr.Library.Runs
import Atomr.Library.Table
import Mathlib.Algebra.Ring.Nat

/-! The loop of an actor cell.

The actor is any: what its hooks do with the context and how `handle` ends comes with each turn
of the loop. A hook does not panic. Messages arrive between turns; one that arrives while a hook
runs is seen at the next look into the queues, as in the program.
-/

namespace Atomr.Core

open Library

inductive SuspendMode where
  | flatOnly
  | riskReducingOnly
  | fullHalt
  deriving DecidableEq, Repr

/-- The factor of a throttle is kept as its bits. -/
inductive Directive where
  | resume
  | restart
  | stop
  | escalate
  | throttle (factor : UInt32) (window : Nat)
  | suspend (mode : SuspendMode)
  | resumeFrom (mode : SuspendMode)
  deriving DecidableEq, Repr

structure SupervisorStrategy where
  maxRetries : Option Nat
  within : Option Nat
  decide : String → Directive

inductive Panic where
  | payload (module qualname repr : String)
  | text (message : String)
  | other
  deriving DecidableEq, Repr

def panicPayloadToString : Panic → String
  | .payload module qualname repr =>
    (if module.isEmpty then qualname else module ++ "." ++ qualname) ++ ": " ++ repr
  | .text message => message
  | .other => "actor panic"

section Cell
variable {P M : Type} [DecidableEq P]

inductive SystemMsg (P : Type) where
  | stop
  | restart (error : String)
  | terminated (path : P)
  | watch (subscriber : P)
  | unwatch (path : P)
  | receiveTimeout
  | childFailed (name error : String)
  | directive (directive : Directive)
  deriving DecidableEq, Repr

inductive LifecyclePhase where
  | starting
  | running
  | stopping
  deriving DecidableEq, Repr

/-- Watchers are told apart by their paths. -/
structure Context (P : Type) where
  path : P
  children : Table String P
  watching : List P
  watchedBy : List P
  receiveTimeout : Option Nat
  stopping : Bool
  phase : LifecyclePhase

def Context.new (path : P) : Context P := ⟨path, ∅, [], [], none, false, .starting⟩

/-- The calls a hook can make on its context that the loop depends on. -/
inductive ContextCall (P : Type) where
  | stopSelf
  | setReceiveTimeout (duration : Option Nat)
  | spawn (name : String) (path : P)
  | stopChild (name : String)
  | watch (target : P)
  | unwatch (target : P)
  deriving DecidableEq, Repr

inductive Hook where
  | preStart
  | postStop
  | preRestart
  | postRestart
  | onTerminated
  | onDirective
  deriving DecidableEq, Repr

inductive Event (P M : Type) where
  | userArrived (msg : M)
  | systemArrived (msg : SystemMsg P)
  | systemTaken (msg : SystemMsg P)
  | hook (hook : Hook)
  | handle (msg : M)
  | stopSelf
  | decided (directive : Directive)
  | retriesExhausted
  | sent (receiver : P) (msg : SystemMsg P)
  deriving DecidableEq, Repr

/-- Where the loop is: before the first hook, at the system queue, at the select, or over. -/
inductive Position where
  | starting
  | draining
  | selecting
  | ended
  deriving DecidableEq, Repr

structure Cell (P M : Type) where
  position : Position
  ctx : Context P
  userQueue : List M
  userClosed : Bool
  systemQueue : List (SystemMsg P)
  systemClosed : Bool
  restartHistory : List Nat
  log : List (Event P M)

/-- What the actor and the clock do in one turn. -/
structure Turn (P : Type) where
  calls : Hook → List (ContextCall P)
  handleCalls : List (ContextCall P)
  panic : Option Panic
  now : Nat
  elapsed : Bool

inductive CellAction (P M : Type) where
  | tell (msg : M)
  | tellSystem (msg : SystemMsg P)
  | dropUserSenders
  | dropSystemSenders
  | turn (turn : Turn P)

namespace Cell

def spawn (path : P) : Cell P M := ⟨.starting, .new path, [], false, [], false, [], []⟩

def record (cell : Cell P M) (event : Event P M) : Cell P M := { cell with log := cell.log ++ [event] }

def perform (cell : Cell P M) : ContextCall P → Cell P M
  | .stopSelf => { cell with ctx.stopping := true }.record .stopSelf
  | .setReceiveTimeout duration => { cell with ctx.receiveTimeout := duration }
  | .spawn name path =>
    if name ∈ cell.ctx.children then cell
    else { cell with ctx.children := cell.ctx.children.insert name path }
  | .stopChild name =>
    match cell.ctx.children.lookup name with
    | some child => cell.record (.sent child .stop)
    | none => cell
  | .watch target =>
    if target ∈ cell.ctx.watching then cell
    else { cell with ctx.watching := cell.ctx.watching ++ [target] }.record (.sent target (.watch cell.ctx.path))
  | .unwatch target =>
    if target ∈ cell.ctx.watching then
      { cell with ctx.watching := cell.ctx.watching.erase target }.record (.sent target (.unwatch cell.ctx.path))
    else cell

variable (turn : Turn P)

def call (hook : Hook) (cell : Cell P M) : Cell P M := (turn.calls hook).foldl perform (cell.record (.hook hook))

/-- The answer is whether the loop is to end. -/
def handleSystem (cell : Cell P M) : SystemMsg P → Cell P M × Bool
  | .stop => (cell, true)
  | .restart _ => ((cell.call turn .preRestart).call turn .postRestart, false)
  | .terminated path =>
    (call turn .onTerminated { cell with ctx.watching := cell.ctx.watching.erase path }, false)
  | .watch subscriber => ({ cell with ctx.watchedBy := cell.ctx.watchedBy.insert subscriber }, false)
  | .unwatch path => ({ cell with ctx.watchedBy := cell.ctx.watchedBy.filter fun watcher => watcher ≠ path }, false)
  | .receiveTimeout => (cell, false)
  | .childFailed _ _ => (cell, false)
  | .directive _ => (cell.call turn .onDirective, false)

/-- Messages still queued are dropped with the queues. -/
def finalize (cell : Cell P M) : Cell P M :=
  let cell := call turn .postStop { cell with ctx.phase := .stopping }
  let stops := cell.ctx.children.values.map fun child => Event.sent child .stop
  let notices := cell.ctx.watchedBy.map fun watcher => Event.sent watcher (.terminated cell.ctx.path)
  { cell with
    position := .ended
    ctx.children := ∅
    ctx.watchedBy := []
    log := cell.log ++ stops ++ notices }

def renew (cell : Cell P M) : Cell P M :=
  { (cell.call turn .preRestart).call turn .postRestart with position := .draining }

/-- The front of the history is pruned while it is older than the window. -/
def prune (strategy : SupervisorStrategy) (now : Nat) (history : List Nat) : List Nat :=
  match strategy.within with
  | none => history
  | some within => history.dropWhile fun restart => now - restart > within

variable (strategy : Option SupervisorStrategy)

def restart (turn : Turn P) (cell : Cell P M) : Cell P M :=
  match strategy.bind fun strategy => strategy.maxRetries.map fun max => (strategy, max) with
  | none => renew turn cell
  | some (strategy, max) =>
    let history := prune strategy turn.now cell.restartHistory
    if (history.length % 2 ^ 32 + 1) % 2 ^ 32 > max then
      finalize turn (record { cell with restartHistory := history } .retriesExhausted)
    else renew turn { cell with restartHistory := history ++ [turn.now] }

def supervise (turn : Turn P) (cell : Cell P M) (error : String) : Cell P M :=
  let directive := (strategy.map fun strategy => strategy.decide error).getD .restart
  let cell := cell.record (.decided directive)
  match directive with
  | .resume => { cell with position := .draining }
  | .throttle _ _ | .suspend _ | .resumeFrom _ => { cell.call turn .onDirective with position := .draining }
  | .restart => cell.restart strategy turn
  | .stop | .escalate => cell.finalize turn

def handle (strategy : Option SupervisorStrategy) (turn : Turn P) (cell : Cell P M) (msg : M) : Cell P M :=
  let cell := turn.handleCalls.foldl perform (cell.record (.handle msg))
  match turn.panic with
  | none => { cell with position := .draining }
  | some panic => cell.supervise strategy turn (panicPayloadToString panic)

def afterSystem : Cell P M × Bool → Cell P M
  | (cell, true) => cell.finalize turn
  | (cell, false) => { cell with position := .draining }

def takeSystem (cell : Cell P M) (msg : SystemMsg P) (rest : List (SystemMsg P)) : Cell P M :=
  afterSystem turn (handleSystem turn (record { cell with systemQueue := rest } (.systemTaken msg)) msg)

/-- The system queue is polled first, then the user queue, then the timer. -/
def select (turn : Turn P) (cell : Cell P M) : Option (Cell P M) :=
  match cell.systemQueue, cell.systemClosed, cell.userQueue, cell.userClosed with
  | msg :: rest, _, _, _ => some (cell.takeSystem turn msg rest)
  | [], true, _, _ => some (cell.finalize turn)
  | [], false, msg :: rest, _ => some (handle strategy turn { cell with userQueue := rest } msg)
  | [], false, [], true => some (cell.finalize turn)
  | [], false, [], false =>
    if cell.ctx.receiveTimeout.isSome && turn.elapsed then
      some (afterSystem turn (cell.handleSystem turn .receiveTimeout))
    else none

def runTurn (turn : Turn P) (cell : Cell P M) : Option (Cell P M) :=
  match cell.position with
  | .starting =>
    let cell := cell.call turn .preStart
    some { cell with position := .draining, ctx.phase := .running }
  | .draining =>
    match cell.systemQueue with
    | msg :: rest => some (cell.takeSystem turn msg rest)
    | [] => if cell.ctx.stopping then some (cell.finalize turn) else some { cell with position := .selecting }
  | .selecting => cell.select strategy turn
  | .ended => none

/-- A message that is sent after the end reaches no queue. -/
def step (cell : Cell P M) : CellAction P M → Option (Cell P M)
  | .tell msg =>
    if cell.position = .ended then some cell
    else if cell.userClosed then none
    else some (record { cell with userQueue := cell.userQueue ++ [msg] } (.userArrived msg))
  | .tellSystem msg =>
    if cell.position = .ended then some cell
    else if cell.systemClosed then none
    else some (record { cell with systemQueue := cell.systemQueue ++ [msg] } (.systemArrived msg))
  | .dropUserSenders => some { cell with userClosed := true }
  | .dropSystemSenders => some { cell with systemClosed := true }
  | .turn turn => cell.runTurn strategy turn

end Cell

end Cell

end Atomr.Core
