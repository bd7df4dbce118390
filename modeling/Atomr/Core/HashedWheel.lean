import Atomr.Library.Runs
import Mathlib.Algebra.Order.Ring.Nat
import Mathlib.Data.List.Nodup
import Mathlib.Data.Nat.ModEq

/-! The hashed wheel timer.

An entry waits in the slot of its tick, with the rounds the wheel still has to turn. Beside the
wheel stand the timers that were scheduled, and what ran in each tick.
-/

namespace Atomr.Core

open Library List Function

/-- The flag and the callback of an entry are those of a timer. -/
structure WheelEntry where
  rounds : Nat
  timer : Nat
  deriving DecidableEq, Repr

/-- Durations are in nanoseconds. The number of slots is a power of two, and the mask is one less. -/
structure HashedWheel where
  tick : Nat
  mask : Nat
  slots : Nat → List WheelEntry
  cursor : Nat

namespace HashedWheel

def new (tick ticksPerWheel : Nat) : HashedWheel := ⟨tick, ticksPerWheel - 1, fun _ => [], 0⟩

def schedule (wheel : HashedWheel) (delay timer : Nat) : HashedWheel :=
  let ticks := delay / max wheel.tick 1 % 2 ^ 64
  let slotsLen := wheel.mask + 1
  let rounds := ticks / slotsLen
  let offset := ticks % slotsLen
  let idx := (wheel.cursor + offset) % 2 ^ 64 &&& wheel.mask
  { wheel with slots := Function.update wheel.slots idx (wheel.slots idx ++ [⟨rounds, timer⟩]) }

def sweep (cancelled : Nat → Bool) : List WheelEntry → List WheelEntry × List Nat
  | [] => ([], [])
  | entry :: items =>
    let (kept, due) := sweep cancelled items
    if cancelled entry.timer then (kept, due)
    else if entry.rounds = 0 then (kept, entry.timer :: due)
    else ({ entry with rounds := entry.rounds - 1 } :: kept, due)

def onTick (wheel : HashedWheel) (cancelled : Nat → Bool) : HashedWheel × List Nat :=
  let idx := wheel.cursor &&& wheel.mask
  let (kept, due) := sweep cancelled (wheel.slots idx)
  ({ wheel with cursor := (wheel.cursor + 1) % 2 ^ 64, slots := Function.update wheel.slots idx kept }, due)

theorem sweep_eq (canc : Nat → Bool) (xs : List WheelEntry) :
    sweep canc xs =
      (((xs.filter fun e => !canc e.timer).filter fun e => e.rounds ≠ 0).map
          fun e => { e with rounds := e.rounds - 1 },
        ((xs.filter fun e => !canc e.timer).filter fun e => e.rounds = 0).map WheelEntry.timer) := by
  induction xs with
  | nil => rfl
  | cons e xs ih =>
    rw [sweep, ih, filter_cons]
    cases canc e.timer with
    | true => rfl
    | false => by_cases due : e.rounds = 0 <;> simp [due]

end HashedWheel

/-- When a timer was scheduled and cancelled, in ticks that had happened. -/
structure Timer where
  id : Nat
  delay : Nat
  time : Nat
  scheduledAt : Nat
  cancelledAt : Option Nat
  deriving DecidableEq, Repr

structure Timers where
  wheel : HashedWheel
  timers : List Timer
  fired : List (List Nat)

inductive TimerAction where
  | schedule (delay time : Nat)
  | cancel (id : Nat)
  | tick
  deriving DecidableEq, Repr

def isCancelled (timers : List Timer) (id : Nat) : Bool :=
  timers.any fun timer => timer.id = id && timer.cancelledAt.isSome

def Timer.cancel (id now : Nat) (timer : Timer) : Timer :=
  if timer.id = id then { timer with cancelledAt := some (timer.cancelledAt.getD now) } else timer

namespace Timers

def new (tick ticksPerWheel : Nat) : Timers := ⟨.new tick ticksPerWheel, [], []⟩

def step (state : Timers) : TimerAction → Option Timers
  | .schedule delay time => some { state with
      wheel := state.wheel.schedule delay state.timers.length
      timers := state.timers ++ [⟨state.timers.length, delay, time, state.fired.length, none⟩] }
  | .cancel id =>
    if id < state.timers.length then
      some { state with timers := state.timers.map (Timer.cancel id state.fired.length) }
    else none
  | .tick =>
    let (wheel, due) := state.wheel.onTick (isCancelled state.timers)
    some { state with wheel, fired := state.fired ++ [due] }

end Timers

variable (tick : Nat)

def Timer.due (timer : Timer) : Nat := timer.scheduledAt + timer.delay / max tick 1 % 2 ^ 64

def Timer.CancelledBefore (timer : Timer) (tick : Nat) : Prop := ∃ at' ∈ timer.cancelledAt, at' ≤ tick
deriving Decidable

def runsIn (timers : List Timer) (number : Nat) : List Nat :=
  (timers.filter fun timer => timer.due tick = number && !timer.CancelledBefore number).map Timer.id

def waiting (size : Nat) (timers : List Timer) (ticks slot : Nat) : List WheelEntry :=
  (timers.filter fun timer => timer.cancelledAt = none && ticks ≤ timer.due tick && timer.due tick % size = slot).map
    fun timer => ⟨(timer.due tick - ticks) / size, timer.id⟩

/-- What holds between two calls, for a wheel of `2 ^ bits` slots. -/
structure Turning (length bits : Nat) (state : Timers) : Prop where
  tick : state.wheel.tick = length
  mask : state.wheel.mask = 2 ^ bits - 1
  cursor : state.wheel.cursor = state.fired.length % 2 ^ 64
  ids : state.timers.map Timer.id = List.range state.timers.length
  cancelled : ∀ timer ∈ state.timers, ∀ at' ∈ timer.cancelledAt, at' ≤ state.fired.length
  slots : ∀ slot < 2 ^ bits,
    ((state.wheel.slots slot).filter fun entry => !isCancelled state.timers entry.timer) =
      waiting length (2 ^ bits) state.timers state.fired.length slot
  fired : state.fired = (List.range state.fired.length).map (runsIn length state.timers)

theorem mod_size {bits : Nat} (small : bits < 64) (n : Nat) : n % 2 ^ 64 % 2 ^ bits = n % 2 ^ bits :=
  Nat.mod_mod_of_dvd n (pow_dvd_pow 2 small.le)

/-- A due entry has no rounds left exactly in its own tick. -/
theorem rounds_eq_zero_iff {size due t : Nat} (pos : 0 < size) (later : t ≤ due)
    (eq : due % size = t % size) : (due - t) / size = 0 ↔ due = t := by
  have whole : (due - t) % size = 0 := Nat.sub_mod_eq_zero_of_mod_eq eq
  rw [Nat.div_eq_zero_iff_lt pos]
  constructor
  · intro below
    rw [Nat.mod_eq_of_lt below] at whole
    omega
  · omega

/-- A tick takes a round from the entries of its own slot. -/
theorem rounds_next {size due t : Nat} (later : t < due) :
    (due - (t + 1)) / size = (due - t) / size - if due % size = t % size then 1 else 0 := by
  obtain ⟨left, rfl⟩ : ∃ left, due = t + (left + 1) := ⟨due - t - 1, by omega⟩
  have eq : (t + (left + 1)) % size = t % size ↔ size ∣ left + 1 := Nat.add_modEq_left_iff
  rw [show t + (left + 1) - (t + 1) = left by omega, Nat.add_sub_cancel_left]
  split
  next again => rw [Nat.succ_div_of_dvd (eq.mp again), Nat.add_sub_cancel]
  next other => rw [Nat.succ_div_of_not_dvd (mt eq.mpr other), Nat.sub_zero]

section
variable {length bits : Nat} {state : Timers}

theorem turning_new (length bits : Nat) : Turning length bits (.new length (2 ^ bits)) where
  tick := rfl
  mask := rfl
  cursor := rfl
  ids := rfl
  cancelled := by simp [Timers.new]
  slots := fun _ _ => rfl
  fired := rfl

variable {tm : Timer} {id t number : Nat} {next : Timers} {acts : List TimerAction}
  {guard : Timers → TimerAction → Prop}

theorem Turning.id_lt (turning : Turning length bits state) (known : tm ∈ state.timers) :
    tm.id < state.timers.length := by
  have there := mem_map_of_mem (f := Timer.id) known
  rwa [turning.ids, mem_range] at there

@[simp] theorem Timer.cancel_id (id t : Nat) (tm : Timer) : (tm.cancel id t).id = tm.id := by
  unfold Timer.cancel
  split <;> rfl

@[simp] theorem Timer.cancel_due (id t : Nat) (tm : Timer) : (tm.cancel id t).due length = tm.due length := by
  unfold Timer.cancel
  split <;> rfl

theorem Timer.cancel_isNone (id t : Nat) (tm : Timer) :
    (tm.cancel id t).cancelledAt = none ↔ tm.cancelledAt = none ∧ tm.id ≠ id := by
  unfold Timer.cancel
  split <;> simp [*]

theorem Timer.cancel_cancelledBefore (past : number < t) (tm : Timer) :
    (tm.cancel id t).CancelledBefore number ↔ tm.CancelledBefore number := by
  unfold Timer.cancel CancelledBefore
  split
  · cases tm.cancelledAt <;> simp
    omega
  · rfl

theorem runsIn_cancel (past : number < t) (ts : List Timer) :
    runsIn length (ts.map (Timer.cancel id t)) number = runsIn length ts number := by
  simp [runsIn, filter_map, comp_def, Timer.cancel_cancelledBefore past]

theorem waiting_cancel (size id t ticks slot : Nat) (ts : List Timer) :
    waiting length size (ts.map (Timer.cancel id t)) ticks slot =
      (waiting length size ts ticks slot).filter fun e => e.timer ≠ id := by
  simp only [waiting, filter_map, map_map, filter_filter]
  congr 1
  · funext tm
    simp
  · congr 1
    grind [Timer.cancel_isNone, Timer.cancel_due]

theorem isCancelled_cancel {ts : List Timer} (known : ∃ tm ∈ ts, tm.id = id) :
    isCancelled (ts.map (Timer.cancel id t)) = fun other => isCancelled ts other || other = id := by
  funext other
  have flag : ∀ tm : Timer, (tm.cancel id t).cancelledAt.isSome = (tm.cancelledAt.isSome || decide (tm.id = id)) := by
    intro tm
    unfold Timer.cancel
    split <;> simp [*]
  simp only [isCancelled, any_map, comp_def, Timer.cancel_id, flag]
  rw [Bool.eq_iff_iff]
  simp only [any_eq_true, Bool.or_eq_true, Bool.and_eq_true, decide_eq_true_eq]
  constructor
  · rintro ⟨tm, there, rfl, pre | t⟩
    · exact .inl ⟨tm, there, rfl, pre⟩
    · exact .inr t
  · rintro (⟨tm, there, eq, pre⟩ | rfl)
    · exact ⟨tm, there, eq, .inl pre⟩
    · obtain ⟨tm, there, eq⟩ := known
      exact ⟨tm, there, eq, .inr eq⟩

theorem waiting_append (size ticks slot : Nat) (ts more : List Timer) :
    waiting length size (ts ++ more) ticks slot =
      waiting length size ts ticks slot ++ waiting length size more ticks slot := by
  simp [waiting]

theorem Turning.cancelledBefore_iff (turning : Turning length bits state) (known : tm ∈ state.timers) :
    tm.CancelledBefore state.fired.length ↔ tm.cancelledAt ≠ none := by
  rw [Option.ne_none_iff_exists']
  constructor
  · rintro ⟨at', canc, _⟩
    exact ⟨at', canc⟩
  · rintro ⟨at', canc⟩
    exact ⟨at', canc, turning.cancelled tm known at' canc⟩

theorem Turning.due (turning : Turning length bits state) :
    ((waiting length (2 ^ bits) state.timers state.fired.length (state.fired.length % 2 ^ bits)).filter
      fun e => e.rounds = 0).map WheelEntry.timer = runsIn length state.timers state.fired.length := by
  simp only [waiting, filter_map, map_map, filter_filter]
  congr 1
  apply filter_congr
  intro tm known
  rw [Bool.eq_iff_iff]
  simp only [comp_apply, Bool.and_eq_true, decide_eq_true_eq, Bool.not_eq_true', decide_eq_false_iff_not,
    turning.cancelledBefore_iff known, not_not]
  constructor
  · rintro ⟨rounds, ⟨active, later⟩, eq⟩
    exact ⟨(rounds_eq_zero_iff (Nat.two_pow_pos bits) later eq).mp rounds, active⟩
  · rintro ⟨due, active⟩
    rw [due]
    simp [active]

theorem map_filter_congr {α β : Type} {xs : List α} {p q : α → Bool} {f g : α → β}
    (eq : ∀ x ∈ xs, p x = q x) (image : ∀ x, q x → f x = g x) :
    (xs.filter p).map f = (xs.filter q).map g := by
  rw [filter_congr eq]
  exact map_congr_left fun x there => image x (mem_filter.mp there).2

theorem waiting_next_here (bits ticks : Nat) (ts : List Timer) :
    waiting length (2 ^ bits) ts (ticks + 1) (ticks % 2 ^ bits) =
      ((waiting length (2 ^ bits) ts ticks (ticks % 2 ^ bits)).filter fun e => e.rounds ≠ 0).map
        fun e => { e with rounds := e.rounds - 1 } := by
  simp only [waiting, filter_map, map_map, filter_filter]
  apply map_filter_congr
  · intro tm _
    rw [Bool.eq_iff_iff]
    simp only [comp_apply, Bool.and_eq_true, decide_eq_true_eq]
    constructor
    · rintro ⟨⟨active, later⟩, eq⟩
      have last := rounds_eq_zero_iff (Nat.two_pow_pos bits) (Nat.le_of_lt later) eq
      exact ⟨by omega, ⟨active, le_of_lt later⟩, eq⟩
    · rintro ⟨rounds, ⟨active, later⟩, eq⟩
      have last := rounds_eq_zero_iff (Nat.two_pow_pos bits) later eq
      exact ⟨⟨active, by omega⟩, eq⟩
  · intro tm there
    simp only [comp_apply, Bool.and_eq_true, decide_eq_true_eq] at there ⊢
    obtain ⟨rounds, ⟨active, later⟩, eq⟩ := there
    have last := rounds_eq_zero_iff (Nat.two_pow_pos bits) later eq
    rw [rounds_next (by omega), if_pos eq]

theorem waiting_next_other {size ticks slot : Nat} (other : slot ≠ ticks % size) (ts : List Timer) :
    waiting length size ts (ticks + 1) slot = waiting length size ts ticks slot := by
  have still : ∀ tm : Timer, tm.due length % size = slot → tm.due length ≠ ticks := by
    rintro tm rfl t
    exact other (by rw [t])
  apply map_filter_congr
  · intro tm _
    rw [Bool.eq_iff_iff]
    simp only [Bool.and_eq_true, decide_eq_true_eq]
    refine and_congr_left fun eq => and_congr_right fun _ => ?_
    have := still tm eq
    omega
  · intro tm there
    simp only [Bool.and_eq_true, decide_eq_true_eq] at there
    have := still tm there.2
    rw [rounds_next (by omega), if_neg (by rwa [there.2]), Nat.sub_zero]

variable (tu : Turning length bits state)
include tu

theorem Turning.schedule (small : bits < 64) (delay time : Nat)
    (stepped : state.step (.schedule delay time) = some next) : Turning length bits next := by
  cases stepped
  have fresh : isCancelled state.timers state.timers.length = false := by
    rw [isCancelled, any_eq_false]
    intro tm known
    have := tu.id_lt known
    simp only [Bool.and_eq_true, decide_eq_true_eq]
    omega
  have flags : isCancelled (state.timers ++ [⟨state.timers.length, delay, time, state.fired.length, none⟩]) =
      isCancelled state.timers := by
    funext id
    simp [isCancelled]
  have place : (state.wheel.cursor + delay / max length 1 % 2 ^ 64 % (2 ^ bits - 1 + 1)) % 2 ^ 64 &&& (2 ^ bits - 1) =
      (state.fired.length + delay / max length 1 % 2 ^ 64) % 2 ^ bits := by
    rw [Nat.and_two_pow_sub_one_eq_mod, mod_size small, tu.cursor, Nat.sub_add_cancel Nat.one_le_two_pow,
      Nat.add_mod, mod_size small, Nat.mod_mod, ← Nat.add_mod]
  exact {
    tick := tu.tick
    mask := tu.mask
    cursor := tu.cursor
    ids := by simp [tu.ids, range_succ]
    cancelled := forall_mem_append.mpr ⟨tu.cancelled, by simp⟩
    slots := by
      intro slot hi
      simp only [flags, HashedWheel.schedule, tu.tick, tu.mask, place]
      rw [waiting_append, ← tu.slots slot hi, update_apply]
      split
      next here => simp [waiting, Timer.due, fresh, here, Nat.sub_add_cancel Nat.one_le_two_pow]
      next other =>
        simp [waiting, Timer.due]
        exact decide_eq_false (Ne.symm other)
    fired := by
      refine tu.fired.trans (map_congr_left fun num past => ?_)
      have later : state.fired.length + delay / max length 1 % 2 ^ 64 ≠ num := by
        have := mem_range.mp past
        omega
      simp [runsIn, Timer.due]
      exact fun t => absurd (of_decide_eq_true t) later }

theorem Turning.cancel (id : Nat) (stepped : state.step (.cancel id) = some next) : Turning length bits next := by
  rw [Timers.step] at stepped
  split at stepped
  case isFalse => cases stepped
  case isTrue hi =>
    cases stepped
    have known : ∃ tm ∈ state.timers, tm.id = id := by
      rwa [← mem_map, tu.ids, mem_range]
    exact {
      tick := tu.tick
      mask := tu.mask
      cursor := tu.cursor
      ids := by simpa [comp_def] using tu.ids
      cancelled := by
        intro tm known at' canc
        obtain ⟨old, there, rfl⟩ := mem_map.mp known
        have pre := tu.cancelled old there
        unfold Timer.cancel at canc
        split at canc
        · cases earlier : old.cancelledAt with
          | none => simp_all
          | some first => simp_all
        · exact pre at' canc
      slots := by
        intro slot hi
        rw [isCancelled_cancel known, waiting_cancel, ← tu.slots slot hi]
        simp [Bool.and_comm]
      fired := tu.fired.trans (map_congr_left fun num past =>
        (runsIn_cancel (mem_range.mp past) state.timers).symm) }

theorem Turning.onTick (small : bits < 64) (stepped : state.step .tick = some next) : Turning length bits next := by
  have here : state.wheel.cursor &&& state.wheel.mask = state.fired.length % 2 ^ bits := by
    rw [tu.cursor, tu.mask, Nat.and_two_pow_sub_one_eq_mod, mod_size small]
  have hi : state.fired.length % 2 ^ bits < 2 ^ bits := Nat.mod_lt _ (Nat.two_pow_pos bits)
  simp only [Timers.step, HashedWheel.onTick, here, HashedWheel.sweep_eq, tu.slots _ hi, tu.due] at stepped
  cases stepped
  exact {
    tick := tu.tick
    mask := tu.mask
    cursor := by simp [tu.cursor]
    ids := tu.ids
    cancelled := by
      intro tm known at' canc
      have := tu.cancelled tm known at' canc
      simp only [length_append]
      omega
    slots := by
      intro slot below
      simp only [length_append, length_singleton, update_apply]
      split
      next here =>
        rw [here, waiting_next_here, filter_eq_self]
        intro e kept
        obtain ⟨old, there, rfl⟩ := mem_map.mp kept
        rw [← tu.slots _ hi] at there
        exact (mem_filter.mp (mem_filter.mp there).1).2
      next other => rw [waiting_next_other other, tu.slots slot below]
    fired := by
      rw [length_append, length_singleton, range_succ, map_append, ← tu.fired]
      rfl }

theorem Turning.step (small : bits < 64) {act : TimerAction} (stepped : state.step act = some next) :
    Turning length bits next := by
  cases act with
  | schedule delay time => exact tu.schedule small delay time stepped
  | cancel id => exact tu.cancel id stepped
  | tick => exact tu.onTick small stepped
omit tu

theorem turning_run (small : bits < 64) (run : Run Timers.step guard (.new length (2 ^ bits)) acts state) :
    Turning length bits state :=
  run.invariant (Turning length bits) (fun _ _ _ tu _ stepped => tu.step small stepped) (turning_new length bits)

theorem scheduled_run {P : Nat → Nat → Nat → Prop}
    (allowed : ∀ state delay time, guard state (.schedule delay time) → P delay time state.fired.length)
    (run : Run Timers.step guard (.new length (2 ^ bits)) acts state) :
    ∀ tm ∈ state.timers, P tm.delay tm.time tm.scheduledAt := by
  refine run.invariant (fun state => ∀ tm ∈ state.timers, P tm.delay tm.time tm.scheduledAt) ?_
    (by simp [Timers.new])
  intro state act next pre guarded stepped tm known
  cases act with
  | schedule delay time =>
    cases stepped
    rcases mem_append.mp known with old | new
    · exact pre tm old
    · rw [mem_singleton.mp new]
      exact allowed state delay time guarded
  | cancel id =>
    rw [Timers.step] at stepped
    split at stepped <;> cases stepped
    obtain ⟨old, there, rfl⟩ := mem_map.mp known
    have kept := pre old there
    unfold Timer.cancel
    split <;> exact kept
  | tick =>
    cases stepped
    exact pre tm known

def Timers.ranIn (state : Timers) (number : Nat) : List Nat := (state.fired[number]?).getD []

theorem Turning.ranIn (tu : Turning length bits state) (num : Nat) :
    state.ranIn num = if num < state.fired.length then runsIn length state.timers num else [] := by
  have fired : state.fired[num]? = _ := congrArg (·[num]?) tu.fired
  rw [Timers.ranIn, fired]
  split
  next happened => simp [happened]
  next ahead => simp [Nat.le_of_not_lt ahead]

theorem Turning.ascending (tu : Turning length bits state) (num : Nat) :
    (runsIn length state.timers num).Pairwise (· < ·) := by
  have sorted : (state.timers.map Timer.id).Pairwise (· < ·) := tu.ids ▸ pairwise_lt_range
  exact sorted.sublist (filter_sublist.map Timer.id)

theorem Turning.mem_runsIn (tu : Turning length bits state) (known : tm ∈ state.timers) (num : Nat) :
    tm.id ∈ runsIn length state.timers num ↔ tm.due length = num ∧ ¬tm.CancelledBefore num := by
  have nodup : (state.timers.map Timer.id).Nodup := tu.ids ▸ nodup_range
  simp only [runsIn, mem_map, mem_filter, Bool.and_eq_true, decide_eq_true_eq, Bool.not_eq_true',
    decide_eq_false_iff_not]
  constructor
  · rintro ⟨other, ⟨there, runs⟩, eq⟩
    rwa [← inj_on_of_nodup_map nodup there known eq]
  · intro runs
    exact ⟨tm, ⟨known, runs⟩, rfl⟩

end

/-- A timer runs in the tick after its whole ticks, once, unless it was cancelled before; the timers of one
tick run in the order they were scheduled. -/
structure OnTime (tick : Nat) (state : Timers) : Prop where
  once : ∀ timer ∈ state.timers, ∀ number, (state.ranIn number).count timer.id =
    if number < state.fired.length ∧ number = timer.scheduledAt + timer.delay / tick ∧ ¬timer.CancelledBefore number
    then 1 else 0
  order : ∀ number, (state.ranIn number).Pairwise (· < ·)

def Fits (_ : Timers) : TimerAction → Prop
  | .schedule delay _ => delay / tick < 2 ^ 64
  | _ => True

instance (tick : Nat) (state : Timers) (action : TimerAction) : Decidable (Fits tick state action) := by
  unfold Fits
  split <;> infer_instance

theorem timers_on_time {tick bits : Nat} (positive : 0 < tick) (small : bits < 64) {actions : List TimerAction}
    {state : Timers} (run : Run Timers.step (Fits tick) (.new tick (2 ^ bits)) actions state) : OnTime tick state := by
  have turning := turning_run small run
  have fit := scheduled_run (P := fun delay _ _ => delay / tick < 2 ^ 64) (fun _ _ _ fits => fits) run
  constructor
  · intro timer known num
    have due : timer.due tick = timer.scheduledAt + timer.delay / tick := by
      rw [Timer.due, max_eq_left positive, Nat.mod_eq_of_lt (fit timer known)]
    rw [turning.ranIn]
    by_cases happened : num < state.fired.length
    · have nodup : (runsIn tick state.timers num).Nodup := (turning.ascending num).imp ne_of_lt
      rw [if_pos happened, nodup.count]
      simp [turning.mem_runsIn known, due, happened, eq_comm]
    · simp [happened]
  · intro num
    rw [turning.ranIn]
    split
    · exact turning.ascending num
    · exact .nil

theorem timers_on_time_cancelled : ∃ state, OnTime 10 state ∧ state.fired = [[], [0, 3], [], [], [], [2], []] := by
  obtain ⟨state, run, fired⟩ : ∃ state, Run Timers.step (Fits 10) (.new 10 (2 ^ 2))
      [.schedule 15 0, .schedule 19 1, .schedule 50 2, .cancel 1, .tick, .schedule 9 3, .tick, .cancel 0, .tick, .tick,
        .tick, .tick, .tick] state ∧ state.fired = [[], [0, 3], [], [], [], [2], []] :=
    Run.exists_of_foldlM (by decide)
  exact ⟨state, timers_on_time (by decide) (by decide) run, fired⟩

/-- Tick number `k` happens at `(k + first) * tick`, and a call between the ticks it is made between. -/
def Clocked (first : Nat) (state : Timers) : TimerAction → Prop
  | .schedule _ time => time ≤ (state.fired.length + first) * tick ∧ (state.fired.length + first) * tick ≤ time + tick
  | _ => True

instance (tick first : Nat) (state : Timers) (action : TimerAction) : Decidable (Clocked tick first state action) := by
  unfold Clocked
  split <;> infer_instance

theorem timer_early_iff {tick bits first : Nat} (positive : 0 < tick) (small : bits < 64) {actions : List TimerAction}
    {state : Timers} (run : Run Timers.step (Clocked tick first) (.new tick (2 ^ bits)) actions state) {timer : Timer}
    (known : timer ∈ state.timers) {number : Nat} (ran : timer.id ∈ state.ranIn number) :
    timer.time + timer.delay ≤ (number + first) * tick ↔
      timer.delay / tick < 2 ^ 64 ∧ timer.delay % tick ≤ (timer.scheduledAt + first) * tick - timer.time := by
  have turning := turning_run small run
  obtain ⟨pre, post⟩ := scheduled_run
    (P := fun _ time ticks => time ≤ (ticks + first) * tick ∧ (ticks + first) * tick ≤ time + tick)
    (fun _ _ _ clocked => clocked) run timer known
  have due : number = timer.scheduledAt + timer.delay / tick % 2 ^ 64 := by
    rw [turning.ranIn] at ran
    split at ran
    · rw [turning.mem_runsIn known, Timer.due, max_eq_left positive] at ran
      exact ran.1.symm
    · cases ran
  have split := Nat.div_add_mod timer.delay tick
  have time : (number + first) * tick =
      (timer.scheduledAt + first) * tick + tick * (timer.delay / tick % 2 ^ 64) := by
    rw [due, add_right_comm, add_mul, mul_comm tick]
  rw [time]
  by_cases fits : timer.delay / tick < 2 ^ 64
  · rw [Nat.mod_eq_of_lt fits]
    omega
  · -- the whole ticks were cut to 64 bits, so at least two ticks are missing
    have cut : timer.delay / tick % 2 ^ 64 + 2 ≤ timer.delay / tick := by omega
    have := Nat.mul_le_mul_left tick cut
    rw [mul_add] at this
    omega

theorem timer_early_aligned : ∃ state : Timers, state.fired = [[], [], [0]] ∧
    state.timers = [⟨0, 20, 0, 0, none⟩] ∧ (0 + 20 ≤ (2 + 0) * 10 ↔ 20 / 10 < 2 ^ 64 ∧ 20 % 10 ≤ (0 + 0) * 10 - 0) := by
  obtain ⟨state, run, timers, fired⟩ : ∃ state, Run Timers.step (Clocked 10 0) (.new 10 (2 ^ 2))
      [.schedule 20 0, .tick, .tick, .tick] state ∧ state.timers = [⟨0, 20, 0, 0, none⟩] ∧ state.fired = [[], [], [0]] :=
    Run.exists_of_foldlM (by decide)
  exact ⟨state, fired, timers, timer_early_iff (by decide) (by decide) run (timers ▸ mem_singleton.mpr rfl)
    (by rw [Timers.ranIn, fired]; decide)⟩

/-- Scheduled at 9 for 5, it runs in the tick at 10. -/
theorem timer_ran_early : ∃ state, Run Timers.step (Clocked 10 0) (.new 10 (2 ^ 2)) [.tick, .schedule 5 9, .tick] state ∧
    (∃ timer ∈ state.timers, timer.time = 9 ∧ timer.delay = 5 ∧ timer.id ∈ state.ranIn 1) ∧ (1 + 0) * 10 < 9 + 5 :=
  Run.exists_of_foldlM (by decide)

end Atomr.Core
