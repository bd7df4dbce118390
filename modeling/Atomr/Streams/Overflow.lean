import Atomr.Library.Runs
import Mathlib.Data.List.Infix

/-! The bounded buffer between a producer task and the consumer of a stream.

The two tasks share the buffer behind a lock, and one `Notify` in both directions. A step is one lock
section or one operation of the `Notify`; the consumer notifies while it holds the lock. A task that
notifies is not waiting, so that at most the other task waits then: it is woken, or the permit is stored.
-/

namespace Atomr.Streams

open Library

inductive OverflowStrategy where
  | backpressure | dropHead | dropNew | dropTail | dropBuffer | fail
  deriving DecidableEq, Repr

inductive Producer (T : Type) where
  | pulling
  | offering (item : T)
  | overflowed (item : T)
  | waiting (item : T)
  | retrying (item : T)
  | notifying
  | completing
  | announcing
  | finished
  deriving DecidableEq, Repr

def Producer.hasOverflowed {T : Type} : Producer T → Bool
  | .overflowed _ => true
  | _ => false

inductive Consumer where
  | checking
  | leaving
  | waiting
  | finished
  deriving DecidableEq, Repr

/-- What the source still has, the buffer, the permit, the tasks, and what the consumer got. -/
structure Buffer (T : Type) where
  source : List T
  items : List T
  complete : Bool
  failed : Bool
  permit : Bool
  producer : Producer T
  consumer : Consumer
  received : List T
  deriving DecidableEq, Repr

inductive Task where
  | producer | consumer
  deriving DecidableEq, Repr

namespace Buffer

variable {T : Type}

def new (source : List T) : Buffer T := ⟨source, [], false, false, false, .pulling, .checking, []⟩

variable (state : Buffer T)

def notifyConsumer : Buffer T :=
  if state.consumer = .waiting then { state with consumer := .checking } else { state with permit := true }

def notifyProducer : Buffer T :=
  match state.producer with
  | .waiting item => { state with producer := .retrying item }
  | _ => { state with permit := true }

variable (strategy : OverflowStrategy)

def offer (cap : Nat) (state : Buffer T) (item : T) : Buffer T :=
  if state.items.length ≥ cap then
    match strategy with
    | .dropHead => { state with items := state.items.tail ++ [item], producer := .notifying }
    | .dropTail => { state with items := state.items.dropLast ++ [item], producer := .notifying }
    | .dropNew => { state with producer := .notifying }
    | .dropBuffer => { state with items := [item], producer := .notifying }
    | .fail => { state with failed := true, complete := true, producer := .announcing }
    | .backpressure => { state with producer := .overflowed item }
  else { state with items := state.items ++ [item], producer := .notifying }

def produce (cap : Nat) (state : Buffer T) : Option (Buffer T) :=
  match state.producer with
  | .pulling =>
    match state.source with
    | [] => some { state with producer := .completing }
    | item :: source => some { state with source, producer := .offering item }
  | .offering item => some (state.offer strategy cap item)
  | .overflowed item =>
    if state.permit then some { state with permit := false, producer := .retrying item }
    else some { state with producer := .waiting item }
  | .waiting _ => none
  | .retrying item =>
    if state.items.length < cap then some { state with items := state.items ++ [item], producer := .notifying }
    else some { state with producer := .overflowed item }
  | .notifying => some { state.notifyConsumer with producer := .pulling }
  | .completing => some { state with complete := true, producer := .announcing }
  | .announcing =>
    -- `notify_waiters` leaves no permit
    some { state with
      consumer := if state.consumer = .waiting then .checking else state.consumer
      producer := .finished }
  | .finished => none

def consume : Option (Buffer T) :=
  match state.consumer with
  | .checking =>
    if state.failed then some { state with consumer := .finished }
    else match state.items with
      | v :: items => some { state with items, received := state.received ++ [v] }.notifyProducer
      | [] =>
        if state.complete then some { state with consumer := .finished } else some { state with consumer := .leaving }
  | .leaving =>
    if state.permit then some { state with permit := false, consumer := .checking }
    else some { state with consumer := .waiting }
  | .waiting => none
  | .finished => none

def step (size : Nat) (state : Buffer T) : Task → Option (Buffer T)
  | .producer => state.produce strategy (max size 1)
  | .consumer => state.consume

/-- Both tasks wait or have ended, and the consumer has not got the whole input with its end. -/
def Stuck (size : Nat) (input : List T) (state : Buffer T) : Prop :=
  (∀ task, state.step strategy size task = none) ∧ ¬(state.consumer = .finished ∧ state.received = input)

/-- A task begins to wait without a permit only while a notification for it is still to come: of the consumer,
that will take an item, or of the producer, that will bring one or announces the end. -/
def Timely : Task → Prop
  | .producer => state.producer.hasOverflowed → state.permit = false → state.items ≠ []
  | .consumer => state.consumer = .leaving → state.permit = false →
      (state.items = [] ∨ state.producer = .notifying) ∧ state.producer ≠ .finished

instance [DecidableEq T] (state : Buffer T) (task : Task) : Decidable (Timely state task) := by
  cases task <;> exact inferInstanceAs (Decidable (_ → _ → _))

end Buffer

def Producer.inHand {T : Type} : Producer T → List T
  | .offering item | .overflowed item | .waiting item | .retrying item => [item]
  | _ => []

def Producer.Ended {T : Type} (producer : Producer T) : Prop := producer = .announcing ∨ producer = .finished

namespace Buffer

variable {T : Type} {input : List T} {size : Nat} {state next : Buffer T}

inductive Produced (cap : Nat) (state : Buffer T) : Buffer T → Prop where
  | drained : state.producer = .pulling → state.source = [] → Produced cap state { state with producer := .completing }
  | pulled {item : T} {source : List T} : state.producer = .pulling → state.source = item :: source →
      Produced cap state { state with source, producer := .offering item }
  | pushed {item : T} : state.producer = .offering item ∨ state.producer = .retrying item → state.items.length < cap →
      Produced cap state { state with items := state.items ++ [item], producer := .notifying }
  | overflowed {item : T} : state.producer = .offering item ∨ state.producer = .retrying item →
      cap ≤ state.items.length → Produced cap state { state with producer := .overflowed item }
  | permitted {item : T} : state.producer = .overflowed item → state.permit = true →
      Produced cap state { state with permit := false, producer := .retrying item }
  | waits {item : T} : state.producer = .overflowed item → state.permit = false →
      Produced cap state { state with producer := .waiting item }
  | notified : state.producer = .notifying → Produced cap state { state.notifyConsumer with producer := .pulling }
  | completed : state.producer = .completing → Produced cap state { state with complete := true, producer := .announcing }
  | announced {consumer : Consumer} : state.producer = .announcing → consumer ≠ .waiting →
      (consumer = .finished → state.consumer = .finished) →
      Produced cap state { state with consumer, producer := .finished }

variable {cap : Nat} {actions : List Task}

theorem produced_of_produce (stepped : state.produce .backpressure cap = some next) : Produced cap state next := by
  unfold Buffer.produce at stepped
  split at stepped
  case h_1 pulling =>
    split at stepped <;> cases stepped
    case h_1 empty => exact .drained pulling empty
    case h_2 more => exact .pulled pulling more
  case h_2 x offering =>
    cases stepped
    unfold offer
    split
    case isTrue full => exact .overflowed (.inl offering) full
    case isFalse room => exact .pushed (.inl offering) (Nat.lt_of_not_ge room)
  case h_3 x overflowed =>
    split at stepped <;> cases stepped
    case isTrue permit => exact .permitted overflowed permit
    case isFalse none => exact .waits overflowed (by simpa using none)
  case h_4 => cases stepped
  case h_5 x retrying =>
    split at stepped <;> cases stepped
    case isTrue room => exact .pushed (.inr retrying) room
    case isFalse full => exact .overflowed (.inr retrying) (Nat.le_of_not_lt full)
  case h_6 notifying =>
    cases stepped
    exact .notified notifying
  case h_7 completing =>
    cases stepped
    exact .completed completing
  case h_8 announcing =>
    cases stepped
    refine .announced announcing ?_ ?_ <;> split <;> simp_all
  case h_9 => cases stepped

inductive Consumed (state : Buffer T) : Buffer T → Prop where
  | taken {v : T} {items : List T} : state.consumer = .checking → state.items = v :: items →
      Consumed state { state with items, received := state.received ++ [v] }.notifyProducer
  | ended : state.consumer = .checking → state.items = [] → state.complete = true →
      Consumed state { state with consumer := .finished }
  | left : state.consumer = .checking → Consumed state { state with consumer := .leaving }
  | permitted : state.consumer = .leaving → Consumed state { state with permit := false, consumer := .checking }
  | waits : state.consumer = .leaving → state.permit = false → Consumed state { state with consumer := .waiting }

theorem consumed_of_consume (working : state.failed = false) (stepped : state.consume = some next) :
    Consumed state next := by
  unfold Buffer.consume at stepped
  split at stepped
  case h_1 checking =>
    rw [if_neg (by simp [working])] at stepped
    split at stepped
    case h_1 v xs buf =>
      cases stepped
      exact .taken checking buf
    case h_2 empty =>
      split at stepped <;> cases stepped
      case isTrue full => exact .ended checking empty full
      case isFalse => exact .left checking
  case h_2 leaving =>
    split at stepped <;> cases stepped
    case isTrue => exact .permitted leaving
    case isFalse none => exact .waits leaving (by simpa using none)
  case h_3 => cases stepped
  case h_4 => cases stepped

structure Delivering (input : List T) (size : Nat) (state : Buffer T) : Prop where
  whole : input = state.received ++ state.items ++ state.producer.inHand ++ state.source
  bounded : state.items.length ≤ max size 1
  failed : state.failed = false
  complete : state.complete = true → state.producer.Ended
  drained : state.producer = .completing ∨ state.producer.Ended → state.source = []
  seen : state.consumer = .finished → state.complete = true ∧ state.items = []

theorem delivering_new (inp : List T) (size : Nat) : Delivering inp size (.new inp) where
  whole := rfl
  bounded := Nat.zero_le _
  failed := rfl
  complete := nofun
  drained := by simp [new, Producer.Ended]
  seen := nofun

theorem Delivering.produced (del : Delivering input size state) (stepped : Produced (max size 1) state next) :
    Delivering input size next := by
  obtain ⟨whole, bdd, failed, full, drained, seen⟩ := del
  cases stepped with
  | notified notifying =>
    unfold notifyConsumer
    split <;> constructor <;> grind -ring -linarith [Producer.inHand, Producer.Ended]
  | _ => constructor <;> grind -ring -linarith [Producer.inHand, Producer.Ended]

theorem Delivering.consumed (del : Delivering input size state) (stepped : Consumed state next) :
    Delivering input size next := by
  obtain ⟨whole, bdd, failed, full, drained, seen⟩ := del
  cases stepped with
  | taken checking buf =>
    unfold notifyProducer
    split <;> constructor <;> grind -ring -linarith [Producer.inHand, Producer.Ended]
  | _ => constructor <;> grind -ring -linarith

theorem delivering_run {guard : Buffer T → Task → Prop}
    (run : Run (step .backpressure size) guard (.new input) actions state) : Delivering input size state := by
  refine run.invariant (Delivering input size) (fun pre task post del _ stepped => ?_) (delivering_new input size)
  cases task with
  | producer => exact del.produced (produced_of_produce stepped)
  | consumer => exact del.consumed (consumed_of_consume del.failed stepped)

structure Awake (state : Buffer T) : Prop where
  producer : ∀ item, state.producer = .waiting item → state.items ≠ []
  consumer : state.consumer = .waiting →
    (state.items = [] ∨ state.producer = .notifying) ∧ state.producer ≠ .finished

theorem Awake.produced (awake : Awake state) (timely : Timely state .producer) (stepped : Produced cap state next) :
    Awake next := by
  obtain ⟨prod, consumer⟩ := awake
  cases stepped with
  | notified notifying =>
    unfold notifyConsumer
    split <;> constructor <;> grind
  | waits overflowed none => constructor <;> grind [Timely, Producer.hasOverflowed]
  | _ => constructor <;> grind

theorem Awake.consumed (awake : Awake state) (timely : Timely state .consumer) (stepped : Consumed state next) :
    Awake next := by
  obtain ⟨prod, consumer⟩ := awake
  cases stepped with
  | taken checking buf =>
    -- a producer that waits is woken by the item taken
    unfold notifyProducer
    split <;> constructor <;> grind
  | waits leaving none => exact ⟨prod, fun _ => timely leaving none⟩
  | _ => constructor <;> grind

theorem awake_run (run : Run (step .backpressure size) Timely (.new input) actions state) : Awake state := by
  have both := run.invariant (fun state => Delivering input size state ∧ Awake state) ?_
    ⟨delivering_new input size, nofun, nofun⟩
  · exact both.2
  intro pre task post ⟨del, awake⟩ timely stepped
  cases task with
  | producer =>
    have moved := produced_of_produce stepped
    exact ⟨del.produced moved, awake.produced timely moved⟩
  | consumer =>
    have moved := consumed_of_consume del.failed stepped
    exact ⟨del.consumed moved, awake.consumed timely moved⟩

theorem not_stuck (del : Delivering input size state) (awake : Awake state) :
    ¬Stuck .backpressure size input state := by
  rintro ⟨blocked, short⟩
  have prod : (∃ x, state.producer = .waiting x) ∨ state.producer = .finished := by
    have none : state.produce .backpressure (max size 1) = none := blocked .producer
    unfold Buffer.produce at none
    grind
  have consumer : state.consumer = .waiting ∨ state.consumer = .finished := by
    have none : state.consume = none := blocked .consumer
    unfold Buffer.consume at none
    grind
  rcases consumer with waits | ended
  · obtain ⟨empty, hr⟩ := awake.consumer waits
    rcases prod with ⟨x, full⟩ | fin
    · rcases empty with empty | notifying
      · exact awake.producer x full empty
      · rw [full] at notifying
        cases notifying
    · exact hr fin
  · obtain ⟨complete, empty⟩ := del.seen ended
    have src := del.drained (.inr (del.complete complete))
    have whole := del.whole
    rcases del.complete complete with announcing | fin
    · rcases prod with ⟨x, full⟩ | fin
      · rw [full] at announcing
        cases announcing
      · rw [fin] at announcing
        cases announcing
    · rw [empty, fin, src] at whole
      exact short ⟨ended, by simpa [Producer.inHand] using whole.symm⟩

theorem backpressure_buffer {actions : List Task}
    (run : Run (step .backpressure size) (fun _ _ => True) (.new input) actions state) :
    state.received <+: input ∧ state.items.length ≤ max size 1 ∧
      (Run (step .backpressure size) Timely (.new input) actions state → ¬Stuck .backpressure size input state) := by
  have delivering := delivering_run run
  refine ⟨?_, delivering.bounded, fun timely => not_stuck delivering (awake_run timely)⟩
  rw [delivering.whole, List.append_assoc, List.append_assoc]
  exact List.prefix_append _ _

def waitsForEnd : List Task :=
  [.producer, .producer, .producer, .consumer, .consumer, .producer, .consumer, .consumer, .consumer, .producer,
    .producer, .consumer]

theorem backpressure_buffer_one_item : ∃ state : Buffer Nat,
    Run (step .backpressure 0) Timely (.new [7]) waitsForEnd state ∧ state.received = [7] ∧
      state.received <+: [7] ∧ state.items.length ≤ max 0 1 ∧ ¬Stuck .backpressure 0 [7] state := by
  let state : Buffer Nat := ⟨[], [], true, false, false, .finished, .finished, [7]⟩
  have run : Run (step .backpressure 0) (fun _ _ => True) (.new [7]) waitsForEnd state := .of_foldlM (by decide)
  have timely : Run (step .backpressure 0) Timely (.new [7]) waitsForEnd state := .of_foldlM (by decide)
  obtain ⟨ahead, bdd, free⟩ := backpressure_buffer run
  exact ⟨state, timely, rfl, ahead, bdd, free timely⟩

/-- The producer takes the permit it left for the consumer, and both wait. -/
theorem backpressure_both_wait : ∃ state, Run (step .backpressure 1) (fun _ _ => True) (.new [1, 2])
    (.consumer :: List.replicate 8 .producer ++ [.consumer]) state ∧ Stuck .backpressure 1 [1, 2] state := by
  obtain ⟨state, run, producer, consumer, recv⟩ : ∃ state, Run (step .backpressure 1) (fun _ _ => True) (.new [1, 2])
      (.consumer :: List.replicate 8 .producer ++ [.consumer]) state ∧ state.produce .backpressure 1 = none ∧
      state.consume = none ∧ state.received = [] := Run.exists_of_foldlM (by decide)
  refine ⟨state, run, fun task => ?_, by simp [recv]⟩
  cases task with
  | producer => exact producer
  | consumer => exact consumer

end Buffer

end Atomr.Streams
