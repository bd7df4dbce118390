import Atomr.Core.Lifecycle
import Atomr.Library.Window

/-! The retry budget of a supervised cell.

Beside the cell stand the failures of its actor, each with what the log gained in that turn: the
hooks of a restart, or those of the end.
-/

namespace Atomr.Core

open Library List Option Bool

section Budget
variable {P M : Type}

structure Failure where
  time : Nat
  restarted : Bool
  stopped : Bool
  deriving DecidableEq, Repr

structure Supervised (P M : Type) where
  cell : Cell P M
  failures : List Failure

def Event.hook? : Event P M → Option Hook
  | .hook called => some called
  | _ => none

def hooks (log : List (Event P M)) : List Hook := log.filterMap Event.hook?

/-- The select finds a user message, and `handle` panics on it. -/
def Cell.fails (cell : Cell P M) (turn : Turn P) : Bool :=
  cell.position = .selecting && cell.systemQueue.isEmpty && !cell.systemClosed && !cell.userQueue.isEmpty &&
    turn.panic.isSome

def Cell.failure (cell next : Cell P M) : CellAction P M → List Failure
  | .turn turn =>
    let called := (hooks next.log).drop (hooks cell.log).length
    if cell.fails turn then [⟨turn.now, called.contains .postRestart, called.contains .postStop⟩] else []
  | _ => []

namespace Supervised

def spawn (path : P) : Supervised P M := ⟨.spawn path, []⟩

def step [DecidableEq P] (strategy : Option SupervisorStrategy) (state : Supervised P M) (action : CellAction P M) :
    Option (Supervised P M) :=
  (state.cell.step strategy action).map fun next => ⟨next, state.failures ++ state.cell.failure next action⟩

def InOrder (state : Supervised P M) : CellAction P M → Prop
  | .turn turn => state.cell.fails turn = true → ∀ earlier ∈ state.failures, earlier.time ≤ turn.now
  | _ => True

instance (state : Supervised P M) (action : CellAction P M) : Decidable (state.InOrder action) := by
  cases action <;> unfold InOrder <;> infer_instance

end Supervised

def restarts (failures : List Failure) : List Nat := (failures.filter Failure.restarted).map Failure.time

variable (within : Option Nat)

def recentRestarts (failures : List Failure) (now : Nat) : Nat :=
  ((restarts failures).filter (recent within now)).length

/-- A failure restarts the actor if the budget is not used up, and stops it otherwise. -/
def WithinBudget (limit : Nat) (before : List Failure) (failure : Failure) : Prop :=
  (failure.restarted = true ↔ recentRestarts within before failure.time < limit) ∧
    failure.stopped = !failure.restarted

structure KeepsBudget (within : Option Nat) (limit : Nat) (failures : List Failure) : Prop where
  each : Justified (WithinBudget within limit) failures
  window : ∀ now, ((restarts failures).filter fun time => time ≤ now && recent within now time).length ≤ limit

/-- The check of the cell, in the width it computes in. A failure that stops the actor is the last. -/
structure Checked (within : Option Nat) (limit : Nat) (before : List Failure) (failure : Failure) : Prop where
  restarted : failure.restarted = decide ((recentRestarts within before failure.time % 2 ^ 32 + 1) % 2 ^ 32 ≤ limit)
  stopped : failure.stopped = !failure.restarted
  earlier : ∀ other ∈ before, other.restarted = true

/-- Before each failure there are fewer than `2 ^ 32 - 1` others in the window. -/
def FewFailures (failures : List Failure) : Prop :=
  Justified (fun before failure =>
    ((before.map Failure.time).filter (recent within failure.time)).length < 2 ^ 32 - 1) failures

section Checks
variable {within : Option Nat} {lim : Nat} {failures : List Failure}

theorem restarts_snoc (fails : List Failure) (failure : Failure) :
    restarts (fails ++ [failure]) = restarts fails ++ if failure.restarted then [failure.time] else [] := by
  unfold restarts
  cases rest' : failure.restarted <;> simp [rest']

theorem restarts_sublist (fails : List Failure) : (restarts fails).Sublist (fails.map Failure.time) :=
  filter_sublist.map _

theorem restarts_of_all (all : ∀ failure ∈ failures, failure.restarted = true) :
    restarts failures = failures.map Failure.time := by
  rw [restarts, filter_eq_self.mpr all]

theorem ordered_restarts (ord : (failures.map Failure.time).Pairwise (· ≤ ·)) :
    (restarts failures).Pairwise (· ≤ ·) :=
  ord.sublist (restarts_sublist failures)

theorem restarts_checked (each : Justified (WithinBudget within lim) failures) :
    Justified (fun pre time => (pre.filter (recent within time)).length < lim) (restarts failures) := by
  induction failures using List.reverseRecOn with
  | nil => exact .nil
  | append_singleton failures failure ih =>
    have last := (each failures failure [] rfl).1
    rw [restarts_snoc]
    split
    next rest' => exact (ih each.left).snoc (last.mp rest')
    · rw [append_nil]; exact ih each.left

/-- No window holds more restarts than the limit, as each of them was within the budget. -/
theorem keepsBudget_of_each (ord : (failures.map Failure.time).Pairwise (· ≤ ·))
    (each : Justified (WithinBudget within lim) failures) : KeepsBudget within lim failures :=
  ⟨each, length_window_le (ordered_restarts ord) (restarts_checked each)⟩

variable {failure : Failure}

theorem recentRestarts_le (ord : ((failures ++ [failure]).map Failure.time).Pairwise (· ≤ ·))
    (keeps : KeepsBudget within lim failures) : recentRestarts within failures failure.time ≤ lim := by
  have earlier : ∀ time ∈ restarts failures, time ≤ failure.time := by
    intro time mem
    rw [map_append, pairwise_append] at ord
    exact ord.2.2 time ((restarts_sublist failures).mem mem) _ (mem_singleton_self _)
  have all := keeps.window failure.time
  rwa [filter_congr (q := recent within failure.time) fun time mem => by simp [earlier time mem]] at all

/-- Below `2 ^ 32 - 1` recent restarts the count does not wrap, and the check is the budget. -/
theorem Checked.withinBudget {pre : List Failure} (checked : Checked within lim pre failure)
    (few : recentRestarts within pre failure.time < 2 ^ 32 - 1) : WithinBudget within lim pre failure := by
  refine ⟨?_, checked.stopped⟩
  rw [checked.restarted, decide_eq_true_eq, Nat.mod_eq_of_lt (lt_of_lt_of_le few (Nat.sub_le _ _)),
    Nat.mod_eq_of_lt (Nat.add_lt_of_lt_sub few)]
  exact Iff.rfl

theorem withinBudget_of_room (ord : (failures.map Failure.time).Pairwise (· ≤ ·))
    (checked : Justified (Checked within lim) failures) (room : lim < 2 ^ 32 - 1 ∨ FewFailures within failures) :
    Justified (WithinBudget within lim) failures := by
  induction failures using List.reverseRecOn with
  | nil => exact .nil
  | append_singleton failures failure ih =>
    have pre : (failures.map Failure.time).Pairwise (· ≤ ·) := by
      rw [map_append, pairwise_append] at ord
      exact ord.1
    have each := ih pre checked.left (room.imp_right Justified.left)
    refine each.snoc ((checked failures failure [] rfl).withinBudget ?_)
    rcases room with small | few
    · exact lt_of_le_of_lt (recentRestarts_le ord (keepsBudget_of_each pre each)) small
    · refine lt_of_le_of_lt ?_ (few failures failure [] rfl)
      exact ((restarts_sublist failures).filter _).length_le

/-- At the widest limit the check never fails, so that the budget is kept only while it is not used up. -/
theorem fewFailures_of_keepsBudget (checked : Justified (Checked within (2 ^ 32 - 1)) failures)
    (keeps : KeepsBudget within (2 ^ 32 - 1) failures) : FewFailures within failures := by
  intro pre failure later cut
  have here := checked pre failure later cut
  have rest' : failure.restarted = true := by
    rw [here.restarted, decide_eq_true_eq]
    exact Nat.le_sub_one_of_lt (Nat.mod_lt _ (by decide))
  rw [← restarts_of_all here.earlier]
  exact (keeps.each pre failure later cut).1.mp rest'

theorem keepsBudget_iff (bdd : lim < 2 ^ 32) (ord : (failures.map Failure.time).Pairwise (· ≤ ·))
    (checked : Justified (Checked within lim) failures) :
    KeepsBudget within lim failures ↔ lim < 2 ^ 32 - 1 ∨ FewFailures within failures := by
  constructor
  · intro keeps
    rcases lt_or_ge lim (2 ^ 32 - 1) with small | wide
    · exact .inl small
    · obtain rfl : lim = 2 ^ 32 - 1 := le_antisymm (Nat.le_sub_one_of_lt bdd) wide
      exact .inr (fewFailures_of_keepsBudget checked keeps)
  · exact fun room => keepsBudget_of_each ord (withinBudget_of_room ord checked room)

end Checks

section Turns
variable {cell next : Cell P M} {turn : Turn P} {strategy : SupervisorStrategy} {limit : Nat}

@[simp] theorem hooks_append (log more : List (Event P M)) : hooks (log ++ more) = hooks log ++ hooks more :=
  filterMap_append

@[simp] theorem hooks_record (c : Cell P M) (ev : Event P M) :
    hooks (c.record ev).log = hooks c.log ++ ev.hook?.toList := by
  refine (hooks_append ..).trans ?_
  cases ev <;> rfl

theorem hooks_sent (receivers : List P) (m : SystemMsg P) :
    hooks (receivers.map fun rcv => (Event.sent rcv m : Event P M)) = [] := by
  rw [hooks, filterMap_map]
  exact filterMap_eq_nil_iff.mpr fun _ _ => rfl

variable [DecidableEq P]

theorem perform_keeps (c : Cell P M) (ccall : ContextCall P) :
    (c.perform ccall).restartHistory = c.restartHistory ∧
      hooks (c.perform ccall).log = hooks c.log := by
  cases ccall with
  | setReceiveTimeout => exact ⟨rfl, rfl⟩
  | stopSelf => exact ⟨rfl, (hooks_append ..).trans (append_nil _)⟩
  | spawn | stopChild | watch | unwatch =>
    rw [Cell.perform]
    split
    all_goals first
      | exact ⟨rfl, rfl⟩
      | exact ⟨rfl, (hooks_append ..).trans (append_nil _)⟩

theorem foldl_perform_keeps (ccalls : List (ContextCall P)) (c : Cell P M) :
    (ccalls.foldl Cell.perform c).restartHistory = c.restartHistory ∧
      hooks (ccalls.foldl Cell.perform c).log = hooks c.log := by
  induction ccalls generalizing c with
  | nil => exact ⟨rfl, rfl⟩
  | cons ccall rest ih =>
    obtain ⟨hist, log⟩ := perform_keeps c ccall
    exact ⟨(ih _).1.trans hist, (ih _).2.trans log⟩

@[simp] theorem restartHistory_call (turn : Turn P) (hook : Hook) (c : Cell P M) :
    (c.call turn hook).restartHistory = c.restartHistory := (foldl_perform_keeps _ _).1

@[simp] theorem hooks_call (turn : Turn P) (hook : Hook) (c : Cell P M) :
    hooks (c.call turn hook).log = hooks c.log ++ [hook] := by
  rw [Cell.call, (foldl_perform_keeps _ _).2]
  exact hooks_append ..

@[simp] theorem restartHistory_finalize (turn : Turn P) (c : Cell P M) :
    (c.finalize turn).restartHistory = c.restartHistory := restartHistory_call _ _ _

@[simp] theorem hooks_finalize (turn : Turn P) (c : Cell P M) :
    hooks (c.finalize turn).log = hooks c.log ++ [.postStop] := by
  simp [Cell.finalize, hooks_sent]

theorem restartHistory_handleSystem (turn : Turn P) (c : Cell P M) (m : SystemMsg P) :
    (Cell.afterSystem turn (c.handleSystem turn m)).restartHistory = c.restartHistory := by
  cases m <;> simp [Cell.handleSystem, Cell.afterSystem]

theorem restartHistory_runTurn {strat : Option SupervisorStrategy} (calm : cell.fails turn = false)
    (taken : cell.runTurn strat turn = some next) : next.restartHistory = cell.restartHistory := by
  unfold Cell.runTurn at taken
  split at taken
  · cases taken
    exact restartHistory_call _ _ _
  · split at taken
    · cases taken
      exact restartHistory_handleSystem _ _ _
    · split at taken <;> cases taken
      · exact restartHistory_finalize _ _
      · rfl
  next selecting =>
    unfold Cell.select at taken
    split at taken
    · cases taken
      exact restartHistory_handleSystem _ _ _
    · cases taken
      exact restartHistory_finalize _ _
    next noSystem isOpen queued =>
      have returned : turn.panic = none := by
        simpa [Cell.fails, selecting, noSystem, isOpen, queued] using calm
      cases taken
      simp [Cell.handle, returned, Cell.record, foldl_perform_keeps]
    · cases taken
      exact restartHistory_finalize _ _
    · split at taken <;> cases taken
      exact restartHistory_handleSystem _ _ _
  · cases taken

omit [DecidableEq P] in
theorem prune_eq_expire (strategy : SupervisorStrategy) (now : Nat) (history : List Nat) :
    Cell.prune strategy now history = expire strategy.within now history := by
  unfold Cell.prune expire recent
  cases strategy.within with
  | none => cases history <;> rfl
  | some within => simp only [all_some, ← decide_not, not_le, gt_iff_lt]

structure Handled (strategy : SupervisorStrategy) (limit now : Nat) (cell next : Cell P M) (restarted : Bool) : Prop where
  check : restarted = decide (((expire strategy.within now cell.restartHistory).length % 2 ^ 32 + 1) % 2 ^ 32 ≤ limit)
  hooks : hooks next.log = hooks cell.log ++ if restarted then [.preRestart, .postRestart] else [.postStop]
  going : restarted = true → next.restartHistory = expire strategy.within now cell.restartHistory ++ [now]
  ends : restarted = false → next.position = .ended

theorem handled_restart (retries : strategy.maxRetries = some limit) (turn : Turn P) (c : Cell P M) :
    ∃ rest', Handled strategy limit turn.now c (c.restart (some strategy) turn) rest' := by
  simp only [Cell.restart, bind_some, retries, map_some, prune_eq_expire]
  split
  next exhausted =>
    refine ⟨false, (decide_eq_false (not_le.mpr exhausted)).symm, ?_, by simp, fun _ => rfl⟩
    simp [Event.hook?]
  next room =>
    refine ⟨true, (decide_eq_true (not_lt.mp room)).symm, ?_, fun _ => ?_, by simp⟩
    · simp [Cell.renew]
    · simp [Cell.renew]

theorem handled_of_fails (retries : strategy.maxRetries = some limit)
    (rsts : ∀ err, strategy.decide err = .restart) (fails : cell.fails turn = true)
    (taken : cell.runTurn (some strategy) turn = some next) :
    ∃ rest', Handled strategy limit turn.now cell next rest' := by
  obtain ⟨pos, ctx, userQueue, userClosed, sysQ, systemClosed, hist, log⟩ := cell
  simp only [Cell.fails, and_eq_true, decide_eq_true_eq, List.isEmpty_iff, not_eq_true',
    isSome_iff_exists] at fails
  obtain ⟨⟨⟨⟨rfl, rfl⟩, rfl⟩, queued⟩, panic, panics⟩ := fails
  obtain ⟨m, rest, rfl⟩ := exists_cons_of_ne_nil (isEmpty_eq_false_iff.mp queued)
  simp only [Cell.runTurn, Cell.select, Cell.handle, panics, Cell.supervise, map_some, rsts,
    Option.some.injEq] at taken
  subst taken
  -- Up to the decision no hook is called.
  let waiting : Cell P M := ⟨.selecting, ctx, rest, userClosed, [], false, hist, log⟩
  let acted := turn.handleCalls.foldl Cell.perform (waiting.record (.handle m))
  obtain ⟨sameHistory, sameHooks⟩ := foldl_perform_keeps turn.handleCalls (waiting.record (.handle m))
  have called : hooks (acted.record (.decided .restart)).log = hooks log := by
    rw [hooks_record, sameHooks]
    simp [Event.hook?, waiting]
  obtain ⟨rest', check, hooks, going, ends⟩ := handled_restart retries turn (acted.record (.decided .restart))
  rw [show (acted.record (.decided .restart)).restartHistory = hist from sameHistory] at check going
  exact ⟨rest', check, called ▸ hooks, going, ends⟩

end Turns

section Runs
variable {strategy : SupervisorStrategy} {limit : Nat} {state next : Supervised P M}
  {c after : Cell P M} {rest' : Bool} {act : CellAction P M}

theorem failure_of_fails {turn : Turn P} (fails : c.fails turn = true)
    (hh : Handled strategy limit turn.now c after rest') :
    c.failure after (.turn turn) = [⟨turn.now, rest', !rest'⟩] := by
  simp only [Cell.failure, fails, hh.hooks, drop_left]
  cases rest' <;> rfl

/-- Every failure so far was a restart, and the history has those that will matter. -/
structure Remembers (within : Option Nat) (history : List Nat) (failures : List Failure) : Prop where
  going : ∀ failure ∈ failures, failure.restarted = true
  ordered : history.Pairwise (· ≤ ·)
  recent : ∀ now, (∀ failure ∈ failures, failure.time ≤ now) →
    history.filter (recent within now) = (restarts failures).filter (recent within now)

structure Budgeted (strategy : SupervisorStrategy) (limit : Nat) (state : Supervised P M) : Prop where
  ordered : (state.failures.map Failure.time).Pairwise (· ≤ ·)
  checked : Justified (Checked strategy.within limit) state.failures
  live : state.cell.position ≠ .ended → Remembers strategy.within state.cell.restartHistory state.failures

theorem budgeted_spawn (p : P) : Budgeted strategy limit (Supervised.spawn p : Supervised P M) :=
  ⟨.nil, .nil, fun _ => ⟨forall_mem_nil _, .nil, fun _ _ => rfl⟩⟩

theorem Budgeted.failure (budg : Budgeted strategy limit state) (live : state.cell.position ≠ .ended) {t : Nat}
    (later : ∀ earlier ∈ state.failures, earlier.time ≤ t)
    (hh : Handled strategy limit t state.cell after rest') :
    Budgeted strategy limit ⟨after, state.failures ++ [⟨t, rest', !rest'⟩]⟩ := by
  obtain ⟨going, inOrder, hist⟩ := budg.live live
  have kept : expire strategy.within t state.cell.restartHistory =
      (restarts state.failures).filter (recent strategy.within t) := by
    rw [expire_eq_filter inOrder, hist t later]
  have ord : ((state.failures ++ [Failure.mk t rest' !rest']).map Failure.time).Pairwise (· ≤ ·) := by
    rw [map_append, pairwise_append]
    refine ⟨budg.ordered, pairwise_singleton .., ?_⟩
    simpa using later
  refine ⟨ord, budg.checked.snoc ⟨?_, rfl, going⟩, fun live => ?_⟩
  · rw [recentRestarts, ← kept]
    exact hh.check
  · obtain rfl : rest' = true := by
      by_contra stop
      exact live (hh.ends (eq_false_iff.mpr stop))
    rw [hh.going rfl, kept]
    refine ⟨forall_mem_append.mpr ⟨going, by simp⟩, ?_, fun query cov => ?_⟩
    · refine pairwise_append.mpr ⟨(ordered_restarts budg.ordered).filter _, pairwise_singleton .., ?_⟩
      rintro time mem _ new
      rw [mem_singleton.mp new]
      obtain ⟨earlier, h, rfl⟩ := mem_map.mp ((restarts_sublist _).mem (mem_of_mem_filter mem))
      exact later earlier h
    · have le : t ≤ query := cov _ mem_concat_self
      rw [restarts_snoc, if_pos rfl, filter_append, filter_append, filter_recent_of_le le]

variable [DecidableEq P]

theorem restartHistory_step {strat : Option SupervisorStrategy}
    (calm : ∀ turn, act = .turn turn → c.fails turn = false) (taken : c.step strat act = some after) :
    after.restartHistory = c.restartHistory := by
  cases act with
  | tell | tellSystem =>
    simp only [Cell.step] at taken
    split at taken
    · cases taken
      rfl
    · split at taken <;> cases taken
      rfl
  | dropUserSenders | dropSystemSenders =>
    cases taken
    rfl
  | turn turn => exact restartHistory_runTurn (calm turn rfl) taken

theorem Budgeted.step (retries : strategy.maxRetries = some limit)
    (rsts : ∀ err, strategy.decide err = .restart) (budg : Budgeted strategy limit state)
    (inOrder : state.InOrder act) (taken : state.step (some strategy) act = some next) :
    Budgeted strategy limit next := by
  obtain ⟨post, moved, rfl⟩ := map_eq_some_iff.mp taken
  by_cases failing : ∃ turn, act = .turn turn ∧ state.cell.fails turn = true
  · obtain ⟨turn, rfl, fails⟩ := failing
    have live : state.cell.position ≠ .ended := by
      intro ended
      simp [Cell.fails, ended] at fails
    obtain ⟨rest', hh⟩ := handled_of_fails retries rsts fails moved
    rw [failure_of_fails fails hh]
    exact budg.failure live (inOrder fails) hh
  · have calm : ∀ turn, act = .turn turn → state.cell.fails turn = false := by
      intro turn eq
      rw [eq_false_iff]
      exact fun fails => failing ⟨turn, eq, fails⟩
    have none : state.cell.failure post act = [] := by
      cases act with
      | turn turn => simp [Cell.failure, calm turn rfl]
      | _ => rfl
    rw [none, append_nil]
    refine ⟨budg.ordered, budg.checked, fun live => ?_⟩
    rw [restartHistory_step calm moved]
    exact budg.live fun ended => live (step_ended ended moved).1

theorem retry_budget_iff (retries : strategy.maxRetries = some limit) (bounded : limit < 2 ^ 32)
    (restarts : ∀ error, strategy.decide error = .restart) {path : P} {actions : List (CellAction P M)}
    (run : Run (Supervised.step (some strategy)) Supervised.InOrder (.spawn path) actions state) :
    KeepsBudget strategy.within limit state.failures ↔
      limit < 2 ^ 32 - 1 ∨ FewFailures strategy.within state.failures := by
  have budgeted : Budgeted strategy limit state :=
    run.invariant (Budgeted strategy limit)
      (fun _ _ _ budgeted inOrder taken => budgeted.step retries restarts inOrder taken) (budgeted_spawn path)
  exact keepsBudget_iff bounded budgeted.ordered budgeted.checked

end Runs

end Budget

def failingTwice : List (CellAction Nat String) :=
  let panicsAt := fun now => CellAction.turn { idleTurn with panic := some (.text "boom"), now }
  [.turn idleTurn, .tell "a", .tell "b", .turn idleTurn, panicsAt 3, .turn idleTurn, panicsAt 8]

theorem retry_budget_failing_twice :
    ∃ state, Run (Supervised.step (some oneRetry)) Supervised.InOrder (.spawn 1) failingTwice state ∧
      state.failures = [⟨3, true, false⟩, ⟨8, false, true⟩] ∧ KeepsBudget (some 10) 1 state.failures := by
  obtain ⟨state, run, fails⟩ : ∃ state,
      Run (Supervised.step (some oneRetry)) Supervised.InOrder (.spawn 1) failingTwice state ∧
        state.failures = [⟨3, true, false⟩, ⟨8, false, true⟩] :=
    Run.exists_of_foldlM (by decide +kernel)
  exact ⟨state, run, fails, (retry_budget_iff rfl (by decide) (fun _ => rfl) run).mpr (.inl (by decide))⟩

def widest : SupervisorStrategy := ⟨some (2 ^ 32 - 1), none, fun _ => .restart⟩

def failingRound : List (CellAction Nat String) :=
  [.tell "a", .turn idleTurn, .turn { idleTurn with panic := some (.text "boom") }]

structure Waiting (cell : Cell Nat String) : Prop where
  position : cell.position = .draining
  userQueue : cell.userQueue = []
  userOpen : cell.userClosed = false
  systemQueue : cell.systemQueue = []
  systemOpen : cell.systemClosed = false
  going : cell.ctx.stopping = false

theorem restart_widest (turn : Turn Nat) (c : Cell Nat String) :
    c.restart (some widest) turn =
      Cell.renew turn { c with restartHistory := c.restartHistory ++ [turn.now] } := by
  have room : ¬ (c.restartHistory.length % 2 ^ 32 + 1) % 2 ^ 32 > 2 ^ 32 - 1 :=
    Nat.not_lt.mpr (Nat.le_sub_one_of_lt (Nat.mod_lt _ (Nat.two_pow_pos 32)))
  exact if_neg room

variable {cell : Cell Nat String} {fails : List Failure}

theorem failing_round (waiting : Waiting cell) (start : ∀ earlier ∈ fails, earlier.time ≤ 0) :
    ∃ post, Waiting post ∧ ∀ {rest final},
      Run (Supervised.step (some widest)) Supervised.InOrder ⟨post, fails ++ [⟨0, true, false⟩]⟩ rest final →
        Run (Supervised.step (some widest)) Supervised.InOrder ⟨cell, fails⟩ (failingRound ++ rest) final := by
  obtain ⟨pos, ctx, userQueue, userClosed, sysQ, systemClosed, hist, log⟩ := cell
  obtain ⟨rfl, rfl, rfl, rfl, rfl, going⟩ := waiting
  dsimp only at going
  let told : Cell Nat String := ⟨.draining, ctx, ["a"], false, [], false, hist, log ++ [.userArrived "a"]⟩
  let ready : Cell Nat String := { told with position := .selecting }
  let post : Cell Nat String := ⟨.draining, ctx, [], false, [], false, hist ++ [0], ready.log ++ [.handle "a",
    .decided .restart, .hook .preRestart, .hook .postRestart]⟩
  have first : Supervised.step (some widest) ⟨⟨.draining, ctx, [], false, [], false, hist, log⟩, fails⟩
      (.tell "a") = some ⟨told, fails⟩ := by
    simp [Supervised.step, Cell.step, Cell.record, Cell.failure, told]
  have second : Supervised.step (some widest) ⟨told, fails⟩ (.turn idleTurn) = some ⟨ready, fails⟩ := by
    simp [Supervised.step, Cell.step, Cell.runTurn, Cell.failure, Cell.fails, told, ready, going]
  have third : Supervised.step (some widest) ⟨ready, fails⟩ (.turn { idleTurn with panic := some (.text "boom") }) =
      some ⟨post, fails ++ [⟨0, true, false⟩]⟩ := by
    have moved : ready.step (some widest) (.turn { idleTurn with panic := some (.text "boom") }) = some post := by
      have directive : ∀ err, widest.decide err = .restart := fun _ => rfl
      simp [Cell.step, Cell.runTurn, Cell.select, Cell.handle, Cell.supervise, directive, restart_widest, Cell.renew,
        Cell.call, Cell.record, idleTurn, told, ready, post]
    have log : hooks post.log = hooks ready.log ++ [.preRestart, .postRestart] := hooks_append ..
    rw [Supervised.step, moved, map_some, Cell.failure, log, drop_left]
    rfl
  exact ⟨post, ⟨rfl, rfl, rfl, rfl, rfl, going⟩, fun run =>
    .cons trivial first (.cons (fun _ => start) second (.cons (fun _ => start) third run))⟩

theorem failing_rounds (count : Nat) (waiting : Waiting cell) (start : ∀ earlier ∈ fails, earlier.time ≤ 0) :
    ∃ acts final, Run (Supervised.step (some widest)) Supervised.InOrder ⟨cell, fails⟩ acts final ∧
      final.failures = fails ++ List.replicate count ⟨0, true, false⟩ := by
  induction count generalizing cell fails with
  | zero => exact ⟨[], _, .nil _, (append_nil _).symm⟩
  | succ count ih =>
    obtain ⟨post, waitingAfter, extend⟩ := failing_round waiting start
    have startAfter : ∀ earlier ∈ fails ++ [⟨0, true, false⟩], earlier.time ≤ 0 := by
      rw [forall_mem_append]
      exact ⟨start, by simp⟩
    obtain ⟨acts, final, run, reached⟩ := ih waitingAfter startAfter
    refine ⟨_, final, extend run, ?_⟩
    rw [reached, append_assoc, replicate_succ, singleton_append]

theorem not_keepsBudget_replicate {lim count : Nat} (more : lim < count) :
    ¬ KeepsBudget none lim (List.replicate count ⟨0, true, false⟩) := by
  intro keeps
  have h := keeps.window 0
  rw [restarts_of_all (by simp), map_replicate, filter_eq_self.mpr (by simp [recent]),
    length_replicate] at h
  exact not_le.mpr more h

/-- With the largest limit the budget is used up and the actor restarts once more. -/
theorem widest_budget_exceeded :
    ∃ (actions : List (CellAction Nat String)) (state : Supervised Nat String),
      Run (Supervised.step (some widest)) Supervised.InOrder (.spawn 1) actions state ∧
        ¬ KeepsBudget none (2 ^ 32 - 1) state.failures := by
  let started : Cell Nat String := ⟨.draining, { Context.new 1 with phase := .running }, [], false, [], false, [],
    [.hook .preStart]⟩
  have begun : Supervised.step (some widest) (.spawn 1) (.turn idleTurn) = some ⟨started, []⟩ := rfl
  have waiting : Waiting started := ⟨rfl, rfl, rfl, rfl, rfl, rfl⟩
  obtain ⟨actions, final, run, reached⟩ := failing_rounds (2 ^ 32) waiting (forall_mem_nil _)
  refine ⟨.turn idleTurn :: actions, final, .cons (fun _ => forall_mem_nil _) begun run, ?_⟩
  rw [reached]
  exact not_keepsBudget_replicate (Nat.sub_lt (Nat.two_pow_pos 32) Nat.one_pos)

end Atomr.Core
