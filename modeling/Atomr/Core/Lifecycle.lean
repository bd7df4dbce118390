import Atomr.Core.ActorCell

/-! The life of an actor cell, read off what happens to it.

The loop keeps the log of a cell justified: each call of a hook or of `handle` is allowed by
what stands before it in the log.
-/

namespace Atomr.Core

open Library List

section Lifecycle
variable {P M : Type}

namespace Event

def IsCall : Event P M → Prop
  | .hook _ | .handle _ => True
  | _ => False

/-- After it no message is to be handled. -/
def Ends : Event P M → Prop
  | .systemTaken .stop | .stopSelf | .decided .stop | .decided .escalate | .retriesExhausted => True
  | _ => False

def userArrival? : Event P M → Option M
  | .userArrived msg => some msg
  | _ => none

def handled? : Event P M → Option M
  | .handle msg => some msg
  | _ => none

def systemArrival? : Event P M → Option (SystemMsg P)
  | .systemArrived msg => some msg
  | _ => none

def systemTaken? : Event P M → Option (SystemMsg P)
  | .systemTaken msg => some msg
  | _ => none

def Silent : Event P M → Prop
  | .stopSelf | .decided _ | .retriesExhausted | .sent _ _ => True
  | _ => False

end Event

def userArrivals (log : List (Event P M)) : List M := log.filterMap Event.userArrival?

def handled (log : List (Event P M)) : List M := log.filterMap Event.handled?

def systemArrivals (log : List (Event P M)) : List (SystemMsg P) := log.filterMap Event.systemArrival?

def systemTaken (log : List (Event P M)) : List (SystemMsg P) := log.filterMap Event.systemTaken?

/-- `preStart` is the first call and no later one, `postStop` is the last one, and a message is
handled only when no system message is queued and nothing has ended the handling. -/
def Allowed (before : List (Event P M)) (event : Event P M) : Prop :=
  (event.IsCall → (event = .hook .preStart ↔ ∀ earlier ∈ before, ¬ earlier.IsCall) ∧ .hook .postStop ∉ before) ∧
    ∀ msg, event = .handle msg → systemTaken before = systemArrivals before ∧ ∀ earlier ∈ before, ¬ earlier.Ends

/-- The log is justified, and what arrived and was not taken is queued. -/
structure Traced (log : List (Event P M)) (userQueue : List M) (systemQueue : List (SystemMsg P)) : Prop where
  justified : Justified Allowed log
  user : userArrivals log = handled log ++ userQueue
  system : systemArrivals log = systemTaken log ++ systemQueue

namespace Traced

variable {log : List (Event P M)} {userQueue user : List M} {sysQ sys : List (SystemMsg P)}

theorem filterMap_snoc {A : Type} (read : Event P M → Option A) (log : List (Event P M)) (ev : Event P M) :
    (log ++ [ev]).filterMap read = log.filterMap read ++ (read ev).toList := by
  rw [filterMap_append, filterMap_cons]
  cases read ev <;> rfl

variable {ev : Event P M}

theorem snoc (traced : Traced log userQueue sysQ) (allowed : Allowed log ev)
    (userMoves : userQueue ++ ev.userArrival?.toList = ev.handled?.toList ++ user)
    (systemMoves : sysQ ++ ev.systemArrival?.toList = ev.systemTaken?.toList ++ sys) :
    Traced (log ++ [ev]) user sys where
  justified := traced.justified.snoc allowed
  user := by
    have pre := traced.user
    unfold userArrivals handled at pre ⊢
    rw [filterMap_snoc, filterMap_snoc, pre, append_assoc, append_assoc, userMoves]
  system := by
    have pre := traced.system
    unfold systemArrivals systemTaken at pre ⊢
    rw [filterMap_snoc, filterMap_snoc, pre, append_assoc, append_assoc, systemMoves]

theorem allowed_of_not_call (other : ¬ ev.IsCall) : Allowed log ev := by
  refine ⟨fun isCall => absurd isCall other, fun m isHandle => absurd ?_ other⟩
  rw [isHandle]
  trivial

variable (traced : Traced log userQueue sysQ)
include traced

theorem silent (silent : ev.Silent) : Traced (log ++ [ev]) userQueue sysQ := by
  cases ev with
  | stopSelf | decided | retriesExhausted | sent =>
    exact traced.snoc (allowed_of_not_call id) (append_nil _) (append_nil _)
  | userArrived | systemArrived | systemTaken | hook | handle => exact False.elim silent

theorem silent_append {events : List (Event P M)} (silent : ∀ ev ∈ events, ev.Silent) :
    Traced (log ++ events) userQueue sysQ := by
  induction events generalizing log with
  | nil => rwa [append_nil]
  | cons ev rest ih =>
    obtain ⟨here, later⟩ := forall_mem_cons.mp silent
    rw [append_cons]
    exact ih (traced.silent here) later

theorem hook {hook : Hook} (first : hook = .preStart ↔ ∀ earlier ∈ log, ¬ earlier.IsCall)
    (hr : .hook .postStop ∉ log) : Traced (log ++ [.hook hook]) userQueue sysQ := by
  refine traced.snoc ⟨fun _ => ⟨?_, hr⟩, by simp⟩ (append_nil _) (append_nil _)
  rw [Event.hook.injEq, first]

end Traced

/-- The calls of a hook leave the queues, the place in the loop and the watchers as they are. What
they add to the log are messages to other cells and the wish to stop. -/
structure HookEffect (cell next : Cell P M) : Prop where
  log : ∃ events, next.log = cell.log ++ events ∧ ∀ event ∈ events,
    event.Silent ∧ (event.Ends → next.ctx.stopping = true) ∧ ∀ receiver path, event ≠ .sent receiver (.terminated path)
  userQueue : next.userQueue = cell.userQueue
  systemQueue : next.systemQueue = cell.systemQueue
  position : next.position = cell.position
  watchedBy : next.ctx.watchedBy = cell.ctx.watchedBy
  path : next.ctx.path = cell.ctx.path
  stopping : cell.ctx.stopping = true → next.ctx.stopping = true

namespace HookEffect

variable {c next last : Cell P M}

theorem refl (c : Cell P M) : HookEffect c c := ⟨⟨[], (append_nil _).symm, by simp⟩, rfl, rfl, rfl, rfl, rfl, id⟩

theorem trans (first : HookEffect c next) (second : HookEffect next last) : HookEffect c last := by
  obtain ⟨events, firstLog, firstEvents⟩ := first.log
  obtain ⟨later, secondLog, secondEvents⟩ := second.log
  refine ⟨⟨events ++ later, by rw [secondLog, firstLog, append_assoc], fun ev mem => ?_⟩,
    second.userQueue.trans first.userQueue, second.systemQueue.trans first.systemQueue,
    second.position.trans first.position, second.watchedBy.trans first.watchedBy, second.path.trans first.path,
    fun stopping => second.stopping (first.stopping stopping)⟩
  rcases mem_append.mp mem with early | late
  · obtain ⟨silent, ends, noNotice⟩ := firstEvents ev early
    exact ⟨silent, fun isEnd => second.stopping (ends isEnd), noNotice⟩
  · exact secondEvents ev late

theorem ofContext (c : Cell P M) {ctx : Context P} (by' : ctx.watchedBy = c.ctx.watchedBy)
    (p : ctx.path = c.ctx.path) (stopping : c.ctx.stopping = true → ctx.stopping = true) :
    HookEffect c { c with ctx } :=
  ⟨⟨[], (append_nil _).symm, by simp⟩, rfl, rfl, rfl, by', p, stopping⟩

theorem record (c : Cell P M) (ev : Event P M) (silent : ev.Silent)
    (ends : ev.Ends → c.ctx.stopping = true)
    (noNotice : ∀ rcv p, ev ≠ .sent rcv (.terminated p)) :
    HookEffect c (c.record ev) := by
  refine ⟨⟨[ev], rfl, fun other mem => ?_⟩, rfl, rfl, rfl, rfl, rfl, id⟩
  rw [mem_singleton.mp mem]
  exact ⟨silent, ends, noNotice⟩

theorem send (c : Cell P M) (rcv : P) {m : SystemMsg P} (noNotice : ∀ p, m ≠ .terminated p) :
    HookEffect c (c.record (.sent rcv m)) :=
  record c _ trivial False.elim fun _ p eq => noNotice p (Event.sent.inj eq).2

variable [DecidableEq P]

theorem perform (c : Cell P M) (ccall : ContextCall P) : HookEffect c (c.perform ccall) := by
  cases ccall with
  | stopSelf =>
    refine trans ?_ (record _ .stopSelf trivial (fun _ => rfl) (by simp))
    exact ofContext c rfl rfl fun _ => rfl
  | setReceiveTimeout duration => exact ofContext c rfl rfl id
  | spawn nm p =>
    rw [Cell.perform]
    split
    · exact refl c
    · exact ofContext c rfl rfl id
  | stopChild nm =>
    rw [Cell.perform]
    split
    · exact send c _ (by simp)
    · exact refl c
  | watch tgt =>
    rw [Cell.perform]
    split
    · exact refl c
    · refine trans ?_ (send _ _ (by simp))
      exact ofContext c rfl rfl id
  | unwatch tgt =>
    rw [Cell.perform]
    split
    · refine trans ?_ (send _ _ (by simp))
      exact ofContext c rfl rfl id
    · exact refl c

theorem foldl_perform (c : Cell P M) (ccalls : List (ContextCall P)) :
    HookEffect c (ccalls.foldl Cell.perform c) := by
  induction ccalls generalizing c with
  | nil => exact refl c
  | cons ccall rest ih => exact (perform c ccall).trans (ih _)

theorem call (turn : Turn P) (hook : Hook) (c : Cell P M) : HookEffect (c.record (.hook hook)) (c.call turn hook) :=
  foldl_perform _ _

end HookEffect

structure Alive (cell : Cell P M) : Prop where
  traced : Traced cell.log cell.userQueue cell.systemQueue
  started : ∃ event ∈ cell.log, event.IsCall
  running : .hook .postStop ∉ cell.log

/-- The cell is to go on: only a wish to stop can have ended the handling. -/
structure Going (cell : Cell P M) : Prop extends Alive cell where
  ends : ∀ event ∈ cell.log, event.Ends → cell.ctx.stopping = true

def Followed (cell : Cell P M) : Prop :=
  match cell.position with
  | .starting => Traced cell.log cell.userQueue cell.systemQueue ∧ ∀ event ∈ cell.log, ¬ event.IsCall ∧ ¬ event.Ends
  | .draining => Going cell
  | .selecting => Alive cell ∧ ∀ event ∈ cell.log, ¬ event.Ends
  | .ended => Traced cell.log cell.userQueue cell.systemQueue ∧ .hook .postStop ∈ cell.log

section Between
variable {cell next : Cell P M}

theorem Alive.not_first (alive : Alive cell) : ¬ ∀ earlier ∈ cell.log, ¬ earlier.IsCall := by
  obtain ⟨c, mem, isCall⟩ := alive.started
  exact fun none => none c mem isCall

variable {events : List (Event P M)}

theorem Alive.going (alive : Alive cell) (none : ∀ ev ∈ cell.log, ¬ ev.Ends) : Going cell :=
  ⟨alive, fun ev mem ends => absurd ends (none ev mem)⟩

theorem Alive.append (alive : Alive cell) (log : next.log = cell.log ++ events) (notLast : .hook .postStop ∉ events)
    (traced : Traced next.log next.userQueue next.systemQueue) : Alive next := by
  obtain ⟨c, mem, isCall⟩ := alive.started
  refine ⟨traced, ⟨c, log ▸ mem_append_left _ mem, isCall⟩, fun stop => ?_⟩
  rw [log] at stop
  exact (mem_append.mp stop).elim alive.running notLast

theorem Going.append (going : Going cell) (log : next.log = cell.log ++ events)
    (ends : ∀ ev ∈ events, ev.Ends → next.ctx.stopping = true)
    (stopping : cell.ctx.stopping = true → next.ctx.stopping = true) (alive : Alive next) : Going next := by
  refine ⟨alive, fun ev mem isEnd => ?_⟩
  rw [log] at mem
  rcases mem_append.mp mem with early | late
  · exact stopping (going.ends ev early isEnd)
  · exact ends ev late isEnd

theorem Alive.effect (alive : Alive cell) (eff : HookEffect cell next) : Alive next := by
  obtain ⟨events, log, silent⟩ := eff.log
  refine alive.append log (fun late => (silent _ late).1) ?_
  rw [log, eff.userQueue, eff.systemQueue]
  exact alive.traced.silent_append fun ev mem => (silent ev mem).1

theorem Going.effect (going : Going cell) (eff : HookEffect cell next) : Going next := by
  obtain ⟨events, log, silent⟩ := eff.log
  exact going.append log (fun ev late => (silent ev late).2.1) eff.stopping (going.toAlive.effect eff)

theorem Going.of_eq (going : Going cell) (log : next.log = cell.log) (userQueue : next.userQueue = cell.userQueue)
    (sysQ : next.systemQueue = cell.systemQueue) (stopping : next.ctx.stopping = cell.ctx.stopping) :
    Going next := by
  refine ⟨⟨?_, log ▸ going.started, log ▸ going.running⟩, ?_⟩
  · rw [log, userQueue, sysQ]
    exact going.traced
  · rw [log, stopping]
    exact going.ends

theorem Going.drains (going : Going cell) : Followed { cell with position := .draining } :=
  going.of_eq rfl rfl rfl rfl

theorem Followed.extend (hfo : Followed cell)
    (quiet : ∀ ev ∈ events, ¬ ev.IsCall ∧ ¬ ev.Ends) (log : next.log = cell.log ++ events)
    (pos : next.position = cell.position) (ctx : next.ctx = cell.ctx)
    (traced : Traced cell.log cell.userQueue cell.systemQueue → Traced next.log next.userQueue next.systemQueue) :
    Followed next := by
  have old : ∀ ev ∈ next.log, ev.IsCall ∨ ev.Ends → ev ∈ cell.log := fun ev mem known => by
    rw [log] at mem
    rcases mem_append.mp mem with early | late
    · exact early
    · obtain ⟨other, goesOn⟩ := quiet ev late
      exact absurd known (not_or.mpr ⟨other, goesOn⟩)
  have kept : ∀ ev ∈ cell.log, ev ∈ next.log := fun ev mem => log ▸ mem_append_left _ mem
  have alive : Alive cell → Alive next := fun alive =>
    alive.append log (fun late => (quiet _ late).1 trivial) (traced alive.traced)
  unfold Followed at hfo ⊢
  rw [pos]
  split at hfo
  · refine ⟨traced hfo.1, fun ev mem => ⟨fun isCall => ?_, fun ends => ?_⟩⟩
    · exact (hfo.2 ev (old ev mem (.inl isCall))).1 isCall
    · exact (hfo.2 ev (old ev mem (.inr ends))).2 ends
  · exact ⟨alive hfo.toAlive, fun ev mem ends => ctx ▸ hfo.ends ev (old ev mem (.inr ends)) ends⟩
  · exact ⟨alive hfo.1, fun ev mem ends => hfo.2 ev (old ev mem (.inr ends)) ends⟩
  · exact ⟨traced hfo.1, kept _ hfo.2⟩

variable {event : Event P M}

theorem Going.snoc (going : Going cell) (log : next.log = cell.log ++ [event]) (goesOn : ¬ event.Ends)
    (ctx : next.ctx = cell.ctx) (alive : Alive next) : Going next :=
  going.append log (forall_mem_singleton.mpr fun ends => absurd ends goesOn) (fun stopping => ctx ▸ stopping) alive

theorem Alive.silent (alive : Alive cell) (ev : Event P M) (silent : ev.Silent) : Alive (cell.record ev) := by
  refine alive.append rfl (fun last => ?_) (alive.traced.silent silent)
  rw [← mem_singleton.mp last] at silent
  exact silent

theorem Going.silent (going : Going cell) (ev : Event P M) (silent : ev.Silent) (goesOn : ¬ ev.Ends) :
    Going (cell.record ev) :=
  going.snoc rfl goesOn rfl (going.toAlive.silent ev silent)

theorem Alive.hook (alive : Alive cell) {hook : Hook} (later : hook ≠ .preStart) (notLast : hook ≠ .postStop) :
    Alive (cell.record (.hook hook)) :=
  alive.append rfl (by simpa using notLast.symm)
    (alive.traced.hook (iff_of_false later alive.not_first) alive.running)

variable [DecidableEq P]

theorem Going.call (going : Going cell) (turn : Turn P) (hook : Hook) (later : hook ≠ .preStart)
    (notLast : hook ≠ .postStop) : Going (cell.call turn hook) := by
  have logged : Going (cell.record (.hook hook)) := going.snoc rfl id rfl (going.toAlive.hook later notLast)
  exact logged.effect (HookEffect.call turn hook cell)

theorem Alive.finalize (alive : Alive cell) (turn : Turn P) : Followed (cell.finalize turn) := by
  let stopping : Cell P M := { cell with ctx.phase := .stopping }
  have traced : Traced (stopping.record (.hook .postStop)).log cell.userQueue cell.systemQueue :=
    alive.traced.hook (iff_of_false (by decide) alive.not_first) alive.running
  have eff := HookEffect.call turn .postStop stopping
  obtain ⟨events, log, silent⟩ := eff.log
  have called : Traced (stopping.call turn .postStop).log (stopping.call turn .postStop).userQueue
      (stopping.call turn .postStop).systemQueue := by
    rw [log, eff.userQueue, eff.systemQueue]
    exact traced.silent_append fun ev mem => (silent ev mem).1
  refine ⟨(called.silent_append ?_).silent_append ?_, ?_⟩
  · intro ev mem
    obtain ⟨_, _, rfl⟩ := mem_map.mp mem
    trivial
  · intro ev mem
    obtain ⟨_, _, rfl⟩ := mem_map.mp mem
    trivial
  · refine mem_append_left _ (mem_append_left _ ?_)
    rw [log]
    exact mem_append_left _ mem_concat_self

variable {m : SystemMsg P} {turn : Turn P} {act : CellAction P M}

/-- Only a `Stop` ends the loop, so that a cell that took another message is to go on. -/
theorem handleSystem_followed (alive : Alive cell) (going : m ≠ .stop → Going cell) (turn : Turn P) :
    Followed (Cell.afterSystem turn (cell.handleSystem turn m)) := by
  cases m with
  | stop => exact alive.finalize turn
  | restart err =>
    have first := (going (by simp)).call turn .preRestart (by decide) (by decide)
    exact (first.call turn .postRestart (by decide) (by decide)).drains
  | terminated p =>
    have forgotten : Going { cell with ctx.watching := cell.ctx.watching.erase p } :=
      (going (by simp)).of_eq rfl rfl rfl rfl
    exact (forgotten.call turn .onTerminated (by decide) (by decide)).drains
  | watch | unwatch | receiveTimeout | childFailed => exact (going (by simp)).of_eq rfl rfl rfl rfl
  | directive directive => exact ((going (by simp)).call turn .onDirective (by decide) (by decide)).drains

theorem Going.renew (going : Going cell) (turn : Turn P) : Followed (cell.renew turn) := by
  have first := going.call turn .preRestart (by decide) (by decide)
  exact (first.call turn .postRestart (by decide) (by decide)).drains

theorem Going.restart (going : Going cell) (strat : Option SupervisorStrategy) (turn : Turn P) :
    Followed (cell.restart strat turn) := by
  have kept (hist : List Nat) : Going { cell with restartHistory := hist } := going.of_eq rfl rfl rfl rfl
  unfold Cell.restart
  split
  · exact going.renew turn
  next strat max _ =>
    dsimp only
    split
    · exact ((kept _).toAlive.silent .retriesExhausted trivial).finalize turn
    · exact (kept _).renew turn

theorem Going.supervise (going : Going cell) (strat : Option SupervisorStrategy) (turn : Turn P) (err : String) :
    Followed (cell.supervise strat turn err) := by
  unfold Cell.supervise
  cases (strat.map fun strat => strat.decide err).getD .restart with
  | resume => exact (going.silent (.decided _) trivial id).drains
  | throttle | suspend | resumeFrom =>
    exact ((going.silent (.decided _) trivial id).call turn .onDirective (by decide) (by decide)).drains
  | restart => exact (going.silent (.decided _) trivial id).restart strat turn
  | stop | escalate => exact (going.toAlive.silent (.decided _) trivial).finalize turn

variable {strat : Option SupervisorStrategy}

/-- A message is handled at a select that found no system message, and nothing had ended the handling. -/
theorem handle_followed (alive : Alive cell) (none : ∀ ev ∈ cell.log, ¬ ev.Ends) (idle : cell.systemQueue = [])
    {m : M} {rest : List M} (queued : cell.userQueue = m :: rest) (turn : Turn P) :
    Followed (Cell.handle strat turn { cell with userQueue := rest } m) := by
  have all := alive.traced.system
  rw [idle, append_nil] at all
  have allowed : Allowed cell.log (.handle m) :=
    ⟨fun _ => ⟨iff_of_false (by simp) alive.not_first, alive.running⟩, fun _ _ => ⟨all.symm, none⟩⟩
  have first : Going (Cell.record { cell with userQueue := rest } (.handle m)) := by
    refine (alive.going none).snoc rfl id rfl (alive.append rfl (by simp) ?_)
    refine alive.traced.snoc allowed ?_ (append_nil _)
    rw [queued]
    exact append_nil _
  have acted := first.effect (HookEffect.foldl_perform _ turn.handleCalls)
  unfold Cell.handle
  cases turn.panic with
  | none => exact acted.drains
  | some panic => exact acted.supervise strat turn _

theorem takeSystem_followed (going : Going cell) {rest : List (SystemMsg P)} (queued : cell.systemQueue = m :: rest)
    (turn : Turn P) : Followed (cell.takeSystem turn m rest) := by
  have alive : Alive (Cell.record { cell with systemQueue := rest } (.systemTaken m)) := by
    refine going.toAlive.append rfl (by simp) ?_
    refine going.traced.snoc (Traced.allowed_of_not_call id) (append_nil _) ?_
    rw [queued]
    exact append_nil _
  refine handleSystem_followed alive (fun other => going.snoc rfl ?_ rfl alive) turn
  cases m <;> first
    | exact absurd rfl other
    | exact id

theorem start_followed (traced : Traced cell.log cell.userQueue cell.systemQueue)
    (fresh : ∀ ev ∈ cell.log, ¬ ev.IsCall ∧ ¬ ev.Ends) (turn : Turn P) :
    Followed { cell.call turn .preStart with
      position := .draining, ctx := { (cell.call turn .preStart).ctx with phase := .running } } := by
  have first : Going (cell.record (.hook .preStart)) := by
    have hr : .hook .postStop ∉ cell.log := fun stop => (fresh _ stop).1 trivial
    have logged := traced.hook ⟨fun _ ev mem => (fresh ev mem).1, fun _ => rfl⟩ hr
    refine ⟨⟨logged, ⟨_, mem_concat_self, trivial⟩, fun stop => ?_⟩, ?_⟩
    · rcases mem_append.mp stop with early | late
      · exact hr early
      · cases mem_singleton.mp late
    · intro ev mem ends
      rcases mem_append.mp mem with early | late
      · exact absurd ends (fresh ev early).2
      · rw [mem_singleton.mp late] at ends
        exact False.elim ends
  exact (first.effect (HookEffect.call turn .preStart cell)).of_eq rfl rfl rfl rfl

theorem select_followed (alive : Alive cell) (none : ∀ ev ∈ cell.log, ¬ ev.Ends)
    (taken : cell.select strat turn = some next) : Followed next := by
  have going := alive.going none
  unfold Cell.select at taken
  split at taken
  next m rest queued =>
    cases taken
    exact takeSystem_followed going queued turn
  · cases taken
    exact alive.finalize turn
  next m rest idle _ queued =>
    cases taken
    exact handle_followed alive none idle queued turn
  · cases taken
    exact alive.finalize turn
  · split at taken
    · cases taken
      exact handleSystem_followed alive (fun _ => going) turn
    · cases taken

theorem runTurn_followed (hfo : Followed cell) (taken : cell.runTurn strat turn = some next) :
    Followed next := by
  unfold Cell.runTurn at taken
  split at taken
  next starting =>
    rw [Followed, starting] at hfo
    cases taken
    exact start_followed hfo.1 hfo.2 turn
  next draining =>
    rw [Followed, draining] at hfo
    split at taken
    next m rest queued =>
      cases taken
      exact takeSystem_followed hfo queued turn
    next idle =>
      split at taken
      · cases taken
        exact hfo.toAlive.finalize turn
      next goesOn =>
        cases taken
        refine ⟨⟨hfo.traced, hfo.started, hfo.running⟩, fun ev mem ends => ?_⟩
        exact goesOn (hfo.ends ev mem ends)
  next selecting =>
    rw [Followed, selecting] at hfo
    exact select_followed hfo.1 hfo.2 taken
  · cases taken

theorem step_ended (atEnd : cell.position = .ended) (taken : cell.step strat act = some next) :
    next.position = .ended ∧ next.log = cell.log := by
  cases act with
  | tell | tellSystem =>
    simp only [Cell.step, if_pos atEnd, Option.some.injEq] at taken
    rw [← taken]
    exact ⟨atEnd, rfl⟩
  | dropUserSenders | dropSystemSenders =>
    cases taken
    exact ⟨atEnd, rfl⟩
  | turn turn =>
    simp only [Cell.step, Cell.runTurn, atEnd] at taken
    cases taken

theorem step_followed (hfo : Followed cell) (taken : cell.step strat act = some next) : Followed next := by
  cases act with
  | tell m =>
    simp only [Cell.step] at taken
    split at taken
    · cases taken
      exact hfo
    · split at taken
      · cases taken
      · cases taken
        refine hfo.extend (forall_mem_singleton.mpr ⟨id, id⟩) rfl rfl rfl fun traced => ?_
        exact traced.snoc (Traced.allowed_of_not_call id) rfl (append_nil _)
  | tellSystem m =>
    simp only [Cell.step] at taken
    split at taken
    · cases taken
      exact hfo
    · split at taken
      · cases taken
      · cases taken
        refine hfo.extend (forall_mem_singleton.mpr ⟨id, id⟩) rfl rfl rfl fun traced => ?_
        exact traced.snoc (Traced.allowed_of_not_call id) (append_nil _) rfl
  | dropUserSenders | dropSystemSenders =>
    cases taken
    exact hfo.extend (by simp) (append_nil _).symm rfl rfl id
  | turn turn => exact runTurn_followed hfo taken

end Between

/-- The calls of hooks and of `handle` over the life of a cell. -/
structure Lifecycle (cell : Cell P M) : Prop where
  preStartFirst : Justified
    (fun before event => event.IsCall → (event = .hook .preStart ↔ ∀ earlier ∈ before, ¬ earlier.IsCall)) cell.log
  inOrder : handled cell.log <+: userArrivals cell.log
  systemFirst : Justified (fun before event => ∀ msg, event = .handle msg → systemTaken before = systemArrivals before)
    cell.log
  noneAfterEnd : Justified (fun before event => ∀ msg, event = .handle msg → ∀ earlier ∈ before, ¬ earlier.Ends) cell.log
  postStopLast : Justified (fun before event => event.IsCall → .hook .postStop ∉ before) cell.log
  postStopAtEnd : cell.position = .ended ↔ .hook .postStop ∈ cell.log

variable {cell : Cell P M}

theorem Followed.traced (hfo : Followed cell) : Traced cell.log cell.userQueue cell.systemQueue := by
  unfold Followed at hfo
  split at hfo
  · exact hfo.1
  · exact hfo.traced
  · exact hfo.1.traced
  · exact hfo.1

theorem Followed.ended_iff (hfo : Followed cell) : cell.position = .ended ↔ .hook .postStop ∈ cell.log := by
  unfold Followed at hfo
  split at hfo
  next starting =>
    rw [starting]
    exact iff_of_false (by decide) fun stop => (hfo.2 _ stop).1 trivial
  next draining =>
    rw [draining]
    exact iff_of_false (by decide) hfo.running
  next selecting =>
    rw [selecting]
    exact iff_of_false (by decide) hfo.1.running
  next ended => exact ⟨fun _ => hfo.2, fun _ => ended⟩

theorem Followed.lifecycle (hfo : Followed cell) : Lifecycle cell where
  preStartFirst := hfo.traced.justified.imp fun _ _ allowed isCall => (allowed.1 isCall).1
  inOrder := ⟨cell.userQueue, hfo.traced.user.symm⟩
  systemFirst := hfo.traced.justified.imp fun _ _ allowed m isHandle => (allowed.2 m isHandle).1
  noneAfterEnd := hfo.traced.justified.imp fun _ _ allowed m isHandle => (allowed.2 m isHandle).2
  postStopLast := hfo.traced.justified.imp fun _ _ allowed isCall => (allowed.1 isCall).2
  postStopAtEnd := hfo.ended_iff

/-- Every run of a cell is a life: of any actor, under any strategy, with any arrivals. -/
theorem cell_lifecycle [DecidableEq P] {strategy : Option SupervisorStrategy} {guard : Cell P M → CellAction P M → Prop}
    {path : P} {actions : List (CellAction P M)} {cell : Cell P M}
    (run : Run (Cell.step strategy) guard (.spawn path) actions cell) : Lifecycle cell := by
  have followed : Followed cell := by
    refine run.invariant Followed (fun _ _ _ followed _ taken => step_followed followed taken) ?_
    exact ⟨⟨.nil, rfl, rfl⟩, by simp [Cell.spawn]⟩
  exact followed.lifecycle

end Lifecycle

def idleTurn : Turn Nat := ⟨fun _ => [], [], none, 0, false⟩

def oneRetry : SupervisorStrategy := ⟨some 1, some 10, fun _ => .restart⟩

/-- Two messages arrive and both are handled with a panic. The cell restarts after the first, and
the second exhausts the retries. A third message stays behind. -/
def panickingLife : List (CellAction Nat String) :=
  let panic := CellAction.turn { idleTurn with panic := some (.text "boom") }
  [.tell "a", .turn idleTurn, .tellSystem (.watch 7), .tell "b", .turn idleTurn, .turn idleTurn, panic, .tell "c",
    .turn idleTurn, panic]

theorem cell_lifecycle_panicking :
    ∃ cell, Run (Cell.step (some oneRetry)) (fun _ _ => True) (.spawn 1) panickingLife cell ∧ Lifecycle cell ∧
      cell.position = .ended ∧ handled cell.log = ["a", "b"] ∧ userArrivals cell.log = ["a", "b", "c"] ∧
      .sent 7 (.terminated 1) ∈ cell.log := by
  exact Run.executed rfl fun run => ⟨cell_lifecycle run, by decide, by decide, by decide, by decide⟩

end Atomr.Core
