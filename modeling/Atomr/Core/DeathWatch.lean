import Atomr.Core.Lifecycle

/-! Watching a cell until it ends.

A watcher registers and deregisters through the system queue of the target. The target tells
those that are registered when it ends, and drops what is left in its queue.
-/

namespace Atomr.Core

open Library List Option

section DeathWatch
variable {P M : Type}

namespace Event

def notified? : Event P M → Option P
  | .sent receiver (.terminated _) => some receiver
  | _ => none

end Event

def notified (log : List (Event P M)) : List P := log.filterMap Event.notified?

theorem notified_append (first second : List (Event P M)) :
    notified (first ++ second) = notified first ++ notified second :=
  filterMap_append

theorem HookEffect.notified_eq {c next : Cell P M} (eff : HookEffect c next) :
    notified next.log = notified c.log := by
  obtain ⟨events, log, silent⟩ := eff.log
  have none : notified events = [] := by
    refine filterMap_eq_nil_iff.mpr fun ev mem => ?_
    have other := (silent ev mem).2.2
    match ev with
    | .sent rcv (.terminated p) => exact absurd rfl (other rcv p)
    | .sent _ .stop | .sent _ (.restart _) | .sent _ (.watch _) | .sent _ (.unwatch _) | .sent _ .receiveTimeout
    | .sent _ (.childFailed _ _) | .sent _ (.directive _) | .userArrived _ | .systemArrived _ | .systemTaken _
    | .hook _ | .handle _ | .stopSelf | .decided _ | .retriesExhausted => rfl
  rw [log, notified_append, none, append_nil]

/-- From here the turn either goes on, with the same watchers, or ends the loop and tells them. -/
structure Settles (cell next : Cell P M) : Prop where
  systemQueue : next.systemQueue = cell.systemQueue
  going : next.position ≠ .ended → next.ctx.watchedBy = cell.ctx.watchedBy ∧ notified next.log = notified cell.log
  ended : next.position = .ended → notified next.log = notified cell.log ++ cell.ctx.watchedBy

namespace Settles

variable {c next last : Cell P M}

theorem after (eff : HookEffect c next) (settles : Settles next last) : Settles c last where
  systemQueue := settles.systemQueue.trans eff.systemQueue
  going hr := by
    obtain ⟨by', log⟩ := settles.going hr
    exact ⟨by'.trans eff.watchedBy, log.trans eff.notified_eq⟩
  ended atEnd := by rw [settles.ended atEnd, eff.notified_eq, eff.watchedBy]

theorem record {ev : Event P M} (quiet : ev.notified? = none) (settles : Settles (c.record ev) last) :
    Settles c last := by
  have none : notified [ev] = [] := filterMap_cons_none quiet
  have eq : notified (c.record ev).log = notified c.log := by
    refine (notified_append c.log [ev]).trans ?_
    rw [none, append_nil]
  refine ⟨settles.systemQueue, fun hr => ?_, fun atEnd => ?_⟩
  · obtain ⟨watchers, later⟩ := settles.going hr
    exact ⟨watchers, later.trans eq⟩
  · rw [settles.ended atEnd, eq]
    rfl

theorem of_eq (settles : Settles next last) (log : next.log = c.log)
    (sysQ : next.systemQueue = c.systemQueue)
    (by' : next.ctx.watchedBy = c.ctx.watchedBy) : Settles c last := by
  obtain ⟨queue, going, ended⟩ := settles
  rw [sysQ] at queue
  rw [log, by'] at going ended
  exact ⟨queue, going, ended⟩

theorem drains (c : Cell P M) : Settles c { c with position := .draining } :=
  ⟨rfl, fun _ => ⟨rfl, rfl⟩, fun atEnd => absurd atEnd (by simp)⟩

variable [DecidableEq P]

theorem call (turn : Turn P) (hook : Hook) (settles : Settles (c.call turn hook) last) : Settles c last :=
  record rfl (after (HookEffect.call turn hook c) settles)

theorem finalize (turn : Turn P) (c : Cell P M) : Settles c (c.finalize turn) := by
  let stopping : Cell P M := { c with ctx.phase := .stopping }
  have eff := HookEffect.call turn .postStop stopping
  refine ⟨eff.systemQueue, fun hr => absurd rfl hr, fun _ => ?_⟩
  have pre : notified (stopping.call turn .postStop).log = notified c.log := by
    rw [eff.notified_eq]
    exact (notified_append c.log [.hook .postStop]).trans (append_nil _)
  have stops : notified ((stopping.call turn .postStop).ctx.children.values.map fun ch =>
      (Event.sent ch .stop : Event P M)) = [] := by
    refine filterMap_eq_nil_iff.mpr fun ev mem => ?_
    obtain ⟨_, _, rfl⟩ := mem_map.mp mem
    rfl
  have notices : notified ((stopping.call turn .postStop).ctx.watchedBy.map fun w =>
      (Event.sent w (.terminated (stopping.call turn .postStop).ctx.path) : Event P M)) = c.ctx.watchedBy := by
    rw [notified, filterMap_map, eff.watchedBy]
    exact filterMap_some
  unfold Cell.finalize
  rw [notified_append, notified_append, pre, stops, notices, append_nil]

theorem renew (turn : Turn P) (c : Cell P M) : Settles c (c.renew turn) :=
  call turn .preRestart (call turn .postRestart (drains _))

variable (strat : Option SupervisorStrategy)
include strat

theorem restart (turn : Turn P) (c : Cell P M) : Settles c (c.restart strat turn) := by
  unfold Cell.restart
  split
  · exact renew turn c
  · dsimp only
    split
    · exact (record rfl (finalize turn _)).of_eq rfl rfl rfl
    · exact (renew turn _).of_eq rfl rfl rfl

theorem supervise (turn : Turn P) (c : Cell P M) (err : String) :
    Settles c (c.supervise strat turn err) := by
  unfold Cell.supervise
  cases (strat.map fun strat => strat.decide err).getD .restart with
  | resume => exact record rfl (drains _)
  | throttle | suspend | resumeFrom => exact record rfl (call turn .onDirective (drains _))
  | restart => exact record rfl (restart strat turn _)
  | stop | escalate => exact record rfl (finalize turn _)

theorem handle (turn : Turn P) (c : Cell P M) (m : M) : Settles c (Cell.handle strat turn c m) := by
  have decided : Settles (turn.handleCalls.foldl Cell.perform (c.record (.handle m)))
      (Cell.handle strat turn c m) := by
    unfold Cell.handle
    cases turn.panic with
    | none => exact drains _
    | some panic => exact supervise strat turn _ _
  exact record rfl (after (HookEffect.foldl_perform _ turn.handleCalls) decided)

end Settles

variable [DecidableEq P]

def SystemMsg.IsWatch : SystemMsg P → Bool
  | .watch _ => true
  | _ => false

def track (watchedBy : List P) : SystemMsg P → List P
  | .watch subscriber => watchedBy.insert subscriber
  | .unwatch path => watchedBy.filter fun watcher => watcher ≠ path
  | _ => watchedBy

/-- What a turn takes from the system queue is tracked, also when the turn then ends the loop. -/
structure WatchMove (cell next : Cell P M) (taken : List (SystemMsg P)) : Prop where
  systemQueue : cell.systemQueue = taken ++ next.systemQueue
  going : next.position ≠ .ended →
    next.ctx.watchedBy = taken.foldl track cell.ctx.watchedBy ∧ notified next.log = notified cell.log
  ended : next.position = .ended → notified next.log = notified cell.log ++ taken.foldl track cell.ctx.watchedBy

section Turns
variable {cell next : Cell P M}

theorem Settles.move (settles : Settles cell next) : WatchMove cell next [] :=
  ⟨settles.systemQueue.symm, settles.going, settles.ended⟩

theorem handleSystem_settles (turn : Turn P) (c : Cell P M) (m : SystemMsg P) :
    Settles { c with ctx.watchedBy := track c.ctx.watchedBy m }
      (Cell.afterSystem turn (c.handleSystem turn m)) := by
  cases m with
  | stop => exact .finalize turn c
  | restart => exact .call turn .preRestart (.call turn .postRestart (.drains _))
  | terminated p => exact (Settles.call turn .onTerminated (.drains _)).of_eq rfl rfl rfl
  | watch | unwatch | receiveTimeout | childFailed => exact .drains _
  | directive => exact .call turn .onDirective (.drains _)

theorem takeSystem_move (turn : Turn P) {m : SystemMsg P} {rest : List (SystemMsg P)}
    (queued : cell.systemQueue = m :: rest) : WatchMove cell (cell.takeSystem turn m rest) [m] := by
  have settles := handleSystem_settles turn (Cell.record { cell with systemQueue := rest } (.systemTaken m)) m
  have eq : notified (cell.log ++ [.systemTaken m]) = notified cell.log := (notified_append _ _).trans (append_nil _)
  refine ⟨?_, fun hr => ?_, fun atEnd => ?_⟩
  · rw [queued]
    exact congrArg (m :: ·) settles.systemQueue.symm
  · obtain ⟨by', log⟩ := settles.going hr
    exact ⟨by', log.trans eq⟩
  · have notices := settles.ended atEnd
    exact notices.trans (congrArg (· ++ track cell.ctx.watchedBy m) eq)

theorem runTurn_move {strat : Option SupervisorStrategy} {turn : Turn P}
    (ran : cell.runTurn strat turn = some next) : ∃ taken, WatchMove cell next taken := by
  unfold Cell.runTurn at ran
  split at ran
  · cases ran
    refine ⟨[], Settles.move (.call turn .preStart ?_)⟩
    exact ⟨rfl, fun _ => ⟨rfl, rfl⟩, fun atEnd => absurd atEnd (by simp)⟩
  · split at ran
    next m rest queued =>
      cases ran
      exact ⟨[m], takeSystem_move turn queued⟩
    · split at ran
      · cases ran
        exact ⟨[], (Settles.finalize turn cell).move⟩
      · cases ran
        exact ⟨[], rfl, fun _ => ⟨rfl, rfl⟩, fun atEnd => absurd atEnd (by simp)⟩
  · unfold Cell.select at ran
    split at ran
    next m rest queued =>
      cases ran
      exact ⟨[m], takeSystem_move turn queued⟩
    · cases ran
      exact ⟨[], (Settles.finalize turn cell).move⟩
    · cases ran
      exact ⟨[], Settles.move (.of_eq (.handle strat turn _ _) rfl rfl rfl)⟩
    · cases ran
      exact ⟨[], (Settles.finalize turn cell).move⟩
    · split at ran
      · cases ran
        exact ⟨[], (handleSystem_settles turn cell .receiveTimeout).move⟩
      · cases ran
  · cases ran

variable {by' : List P}

theorem nodup_track (nodup : by'.Nodup) (m : SystemMsg P) : (track by' m).Nodup := by
  cases m with
  | watch subscriber => exact nodup.insert
  | unwatch p => exact nodup.filter _
  | stop | restart | terminated | receiveTimeout | childFailed | directive => exact nodup

theorem nodup_foldl_track (nodup : by'.Nodup) (queue : List (SystemMsg P)) :
    (queue.foldl track by').Nodup := by
  induction queue generalizing by' with
  | nil => exact nodup
  | cons m rest ih => exact ih (nodup_track nodup m)

theorem mem_of_mem_foldl_track {queue : List (SystemMsg P)} (none : ∀ m ∈ queue, m.IsWatch = false) {w : P}
    (mem : w ∈ queue.foldl track by') : w ∈ by' := by
  induction queue generalizing by' with
  | nil => exact mem
  | cons m rest ih =>
    obtain ⟨here, later⟩ := forall_mem_cons.mp none
    have pre := ih later mem
    cases m with
    | watch subscriber => cases here
    | unwatch p => exact (mem_filter.mp pre).1
    | stop | restart | terminated | receiveTimeout | childFailed | directive => exact pre

end Turns

inductive WatchCall where
  | watch
  | unwatch
  deriving DecidableEq, Repr

/-- A watcher's side: whether its context lists the target, and how many `Terminated` of the
target are in its queue. The last call and the notices since the last registration are for the record. -/
structure Watcher where
  watching : Bool
  inbox : Nat
  lastCall : Option WatchCall
  notices : Nat

structure WatchNet (P M : Type) where
  target : Cell P M
  watchers : P → Watcher

inductive WatchAction (P M : Type) where
  | watch (watcher : P)
  | unwatch (watcher : P)
  | take (watcher : P)
  | target (action : CellAction P M)

def CellAction.Registers : CellAction P M → Bool
  | .tellSystem (.watch _) | .tellSystem (.unwatch _) => true
  | _ => false

namespace WatchNet

def spawn (path : P) : WatchNet P M := ⟨.spawn path, fun _ => ⟨false, 0, none, 0⟩⟩

def set (net : WatchNet P M) (target : Cell P M) (id : P) (watcher : Watcher) : WatchNet P M :=
  ⟨target, Function.update net.watchers id watcher⟩

def deliver (watchers : P → Watcher) (notices : List P) (id : P) : Watcher :=
  { watchers id with
    inbox := (watchers id).inbox + notices.count id, notices := (watchers id).notices + notices.count id }

def step (strategy : Option SupervisorStrategy) (net : WatchNet P M) : WatchAction P M → Option (WatchNet P M)
  | .watch id =>
    let watcher := net.watchers id
    if watcher.watching then some (net.set net.target id { watcher with lastCall := some .watch })
    else (net.target.step strategy (.tellSystem (.watch id))).map fun target =>
      net.set target id { watcher with watching := true, lastCall := some .watch, notices := 0 }
  | .unwatch id =>
    let watcher := net.watchers id
    if watcher.watching then
      (net.target.step strategy (.tellSystem (.unwatch id))).map fun target =>
        net.set target id { watcher with watching := false, lastCall := some .unwatch }
    else some (net.set net.target id { watcher with lastCall := some .unwatch })
  | .take id =>
    let watcher := net.watchers id
    if watcher.inbox = 0 then none
    else some (net.set net.target id { watcher with watching := false, inbox := watcher.inbox - 1 })
  | .target action =>
    if action.Registers then none
    else (net.target.step strategy action).map fun target =>
      ⟨target, deliver net.watchers ((notified target.log).drop (notified net.target.log).length)⟩

/-- No registration is sent to a target that has ended, and none is left in its queue when it ends. -/
def Orderly (strategy : Option SupervisorStrategy) (net : WatchNet P M) : WatchAction P M → Prop
  | .watch id => net.target.position = .ended → (net.watchers id).watching = true
  | .target action => net.target.position ≠ .ended → ∀ next ∈ net.target.step strategy action,
      next.position = .ended → ∀ msg ∈ next.systemQueue, msg.IsWatch = false
  | .unwatch _ | .take _ => True

instance (strategy : Option SupervisorStrategy) (net : WatchNet P M) (action : WatchAction P M) :
    Decidable (Orderly strategy net action) := by
  cases action <;> unfold Orderly <;> infer_instance

end WatchNet

/-- Those that are registered once the system queue is worked off. -/
def Cell.pending (cell : Cell P M) : List P := cell.systemQueue.foldl track cell.ctx.watchedBy

section Steps
variable {strat : Option SupervisorStrategy} {cell next : Cell P M}

theorem step_tellSystem {m : SystemMsg P} (hr : cell.position ≠ .ended)
    (taken : cell.step strat (.tellSystem m) = some next) :
    next.position = cell.position ∧ next.ctx = cell.ctx ∧ next.systemQueue = cell.systemQueue ++ [m] ∧
      notified next.log = notified cell.log := by
  simp only [Cell.step, if_neg hr] at taken
  split at taken
  · cases taken
  · cases taken
    exact ⟨rfl, rfl, rfl, (notified_append _ _).trans (append_nil _)⟩

/-- Those that are pending stay pending; at the end they are told, if no registration is left. -/
theorem step_pending {act : CellAction P M} (hr : cell.position ≠ .ended) (other : act.Registers = false)
    (taken : cell.step strat act = some next) :
    ∃ watchers : List P, (cell.ctx.watchedBy.Nodup → watchers.Nodup) ∧
      next.systemQueue.foldl track watchers = cell.pending ∧
      (next.position ≠ .ended → next.ctx.watchedBy = watchers ∧ notified next.log = notified cell.log) ∧
      (next.position = .ended → notified next.log = notified cell.log ++ watchers) := by
  cases act with
  | tell m =>
    simp only [Cell.step, if_neg hr] at taken
    split at taken
    · cases taken
    · cases taken
      exact ⟨cell.ctx.watchedBy, id, rfl, fun _ => ⟨rfl, (notified_append _ _).trans (append_nil _)⟩,
        fun atEnd => absurd atEnd hr⟩
  | tellSystem m =>
    obtain ⟨pos, ctx, sysQ, log⟩ := step_tellSystem hr taken
    refine ⟨cell.ctx.watchedBy, id, ?_, fun _ => ⟨by rw [ctx], log⟩, fun atEnd => absurd (pos ▸ atEnd) hr⟩
    rw [sysQ, foldl_append]
    cases m with
    | watch | unwatch => cases other
    | stop | restart | terminated | receiveTimeout | childFailed | directive => rfl
  | dropUserSenders | dropSystemSenders =>
    cases taken
    exact ⟨cell.ctx.watchedBy, id, rfl, fun _ => ⟨rfl, rfl⟩, fun atEnd => absurd atEnd hr⟩
  | turn turn =>
    obtain ⟨msgs, move⟩ := runTurn_move taken
    refine ⟨msgs.foldl track cell.ctx.watchedBy, fun nodup => nodup_foldl_track nodup msgs, ?_,
      move.going, move.ended⟩
    rw [Cell.pending, move.systemQueue, foldl_append]

end Steps

namespace WatchNet

variable {strategy : Option SupervisorStrategy} {net next : WatchNet P M}

theorem set_watchers (net : WatchNet P M) (tgt : Cell P M) (id other : P) (w : Watcher) :
    (net.set tgt id w).watchers other = if other = id then w else net.watchers other :=
  Function.update_apply ..

/-- Before the end: a watcher lists the target exactly when it is, or will be, registered there. -/
structure Open (net : WatchNet P M) : Prop where
  running : net.target.position ≠ .ended
  distinct : net.target.ctx.watchedBy.Nodup
  registered : ∀ id, id ∈ net.target.pending ↔ (net.watchers id).watching = true
  calls : ∀ id, (net.watchers id).lastCall = some .watch ↔ (net.watchers id).watching = true
  quiet : ∀ id, (net.watchers id).inbox = 0 ∧ (net.watchers id).notices = 0

structure Closed (net : WatchNet P M) : Prop where
  atEnd : net.target.position = .ended
  told : ∀ id, (net.watchers id).lastCall = some .watch → (net.watchers id).notices = 1
  calls : ∀ id, (net.watchers id).watching = true → (net.watchers id).lastCall = some .watch

variable {id : P}

theorem Open.set (pre : Open net) {tgt : Cell P M} {w : Watcher} (hr : tgt.position ≠ .ended)
    (nodup : tgt.ctx.watchedBy.Nodup)
    (others : ∀ other, other ≠ id → (other ∈ tgt.pending ↔ other ∈ net.target.pending))
    (own : id ∈ tgt.pending ↔ w.watching = true)
    (cs : w.lastCall = some .watch ↔ w.watching = true)
    (quiet : w.inbox = 0 ∧ w.notices = 0) : Open (net.set tgt id w) where
  running := hr
  distinct := nodup
  registered other := by
    rw [set_watchers]
    split
    next eq => exact eq ▸ own
    next ne => exact (others other ne).trans (pre.registered other)
  calls other := by
    rw [set_watchers]
    split
    · exact cs
    · exact pre.calls other
  quiet other := by
    rw [set_watchers]
    split
    · exact quiet
    · exact pre.quiet other

theorem Open.watch (pre : Open net) (taken : net.step strategy (.watch id) = some next) : Open next := by
  simp only [step] at taken
  split at taken
  next watching =>
    -- The call is repeated, so that nothing is sent.
    cases taken
    refine pre.set pre.running pre.distinct (fun _ _ => Iff.rfl) (pre.registered id) ?_ (pre.quiet id)
    exact iff_of_true rfl watching
  · obtain ⟨tgt, sent, rfl⟩ := map_eq_some_iff.mp taken
    obtain ⟨pos, ctx, sysQ, _⟩ := step_tellSystem pre.running sent
    have pending : tgt.pending = net.target.pending.insert id := by
      rw [Cell.pending, sysQ, foldl_append, ctx]
      rfl
    refine pre.set (pos ▸ pre.running) (ctx ▸ pre.distinct) (fun other ne => ?_) ?_ ?_ ?_
    · rw [pending, mem_insert_iff, or_iff_right ne]
    · rw [pending]
      exact iff_of_true mem_insert_self rfl
    · exact iff_of_true rfl rfl
    · exact ⟨(pre.quiet id).1, rfl⟩

theorem Open.unwatch (pre : Open net) (taken : net.step strategy (.unwatch id) = some next) : Open next := by
  simp only [step] at taken
  split at taken
  · obtain ⟨tgt, sent, rfl⟩ := map_eq_some_iff.mp taken
    obtain ⟨pos, ctx, sysQ, _⟩ := step_tellSystem pre.running sent
    have pending : tgt.pending = net.target.pending.filter fun w => w ≠ id := by
      rw [Cell.pending, sysQ, foldl_append, ctx]
      rfl
    refine pre.set (pos ▸ pre.running) (ctx ▸ pre.distinct) (fun other ne => ?_) ?_ ?_
      (pre.quiet id)
    · rw [pending, mem_filter, and_iff_left (decide_eq_true ne)]
    · rw [pending]
      simp
    · simp
  next idle =>
    cases taken
    refine pre.set pre.running pre.distinct (fun _ _ => Iff.rfl) (pre.registered id) ?_ (pre.quiet id)
    exact iff_of_false (by simp) idle

/-- The end tells each registered watcher once. -/
theorem Open.target (pre : Open net) {act : CellAction P M} (ord : Orderly strategy net (.target act))
    (taken : net.step strategy (.target act) = some next) : Open next ∨ Closed next := by
  simp only [step] at taken
  split at taken
  · cases taken
  next other =>
    obtain ⟨tgt, moved, rfl⟩ := map_eq_some_iff.mp taken
    obtain ⟨watchers, nodup, pending, going, ended⟩ :=
      step_pending pre.running ((Bool.not_eq_true _).mp other) moved
    by_cases atEnd : tgt.position = .ended
    · right
      have new : (notified tgt.log).drop (notified net.target.log).length = watchers := by
        rw [ended atEnd, drop_left]
      refine ⟨atEnd, fun id called => ?_, fun id watching => (pre.calls id).mpr watching⟩
      have mem : id ∈ watchers := by
        refine mem_of_mem_foldl_track (ord pre.running tgt moved atEnd) ?_
        rw [pending, pre.registered]
        exact (pre.calls id).mp called
      change (net.watchers id).notices + _ = 1
      rw [new, (pre.quiet id).2, count_eq_one_of_mem (nodup pre.distinct) mem]
    · left
      obtain ⟨by', log⟩ := going atEnd
      have none : (notified tgt.log).drop (notified net.target.log).length = [] := by
        rw [log, drop_length]
      rw [none]
      refine ⟨atEnd, by' ▸ nodup pre.distinct, fun id => ?_, pre.calls, pre.quiet⟩
      rw [Cell.pending, by', pending]
      exact pre.registered id

theorem Closed.set (pre : Closed net) {tgt : Cell P M} {w : Watcher} (atEnd : tgt.position = .ended)
    (told : w.lastCall = some .watch → w.notices = 1)
    (cs : w.watching = true → w.lastCall = some .watch) : Closed (net.set tgt id w) where
  atEnd := atEnd
  told other := by
    rw [set_watchers]
    split
    · exact told
    · exact pre.told other
  calls other := by
    rw [set_watchers]
    split
    · exact cs
    · exact pre.calls other

theorem Closed.step (pre : Closed net) {act : WatchAction P M} (ord : Orderly strategy net act)
    (taken : WatchNet.step strategy net act = some next) : Closed next := by
  cases act with
  | watch id =>
    have watching := ord pre.atEnd
    simp only [WatchNet.step, watching] at taken
    cases taken
    exact pre.set pre.atEnd (fun _ => pre.told id (pre.calls id watching)) fun _ => rfl
  | unwatch id =>
    simp only [WatchNet.step] at taken
    split at taken
    · obtain ⟨target, sent, rfl⟩ := map_eq_some_iff.mp taken
      exact pre.set (step_ended pre.atEnd sent).1 (by simp) (by simp)
    next idle =>
      cases taken
      exact pre.set pre.atEnd (by simp) fun watching => absurd watching idle
  | take id =>
    simp only [WatchNet.step] at taken
    split at taken
    · cases taken
    · cases taken
      exact pre.set pre.atEnd (pre.told id) (by simp)
  | target act =>
    simp only [WatchNet.step] at taken
    split at taken
    · cases taken
    · obtain ⟨target, moved, rfl⟩ := map_eq_some_iff.mp taken
      obtain ⟨atEnd, log⟩ := step_ended pre.atEnd moved
      rw [log, drop_length]
      exact ⟨atEnd, pre.told, pre.calls⟩

end WatchNet

end DeathWatch

end Atomr.Core
