import Atomr.ClusterTools.ClusterSingleton

/-! Sends through the proxy of a singleton, over any calls on its manager.

A send is delivered at once while the singleton is active and kept in order otherwise; every
activation hands over what was kept. So what was delivered, followed by what is kept, is what
was accepted.
-/

namespace Atomr.ClusterTools

open Library List

variable {Hook Ref Msg : Type}

inductive ManagerCall (Ref Msg : Type) where
  | send (msg : Msg)
  | setActiveHere (ref : Ref)
  | setActiveRemote (ref : Ref)
  | beginHandover
  | beginStarting
  | clear

/-- A manager in use. The accepted sends, the number of refused ones and the singleton that was
current at each delivery are records that the manager does not read. -/
structure ProxyUse (Hook Ref Msg : Type) where
  manager : ClusterSingletonManager Hook Ref Msg
  accepted : List Msg
  refused : Nat
  currentAt : List (Option Ref)

namespace ProxyUse

def start (manager : ClusterSingletonManager Hook Ref Msg) : ProxyUse Hook Ref Msg := ⟨manager, [], 0, []⟩

/-- The use after a call that leaves the manager in `next`. The state is set before the buffer is
flushed, so what is current afterwards was current at each delivery of the call. -/
def after (use : ProxyUse Hook Ref Msg) (next : ClusterSingletonManager Hook Ref Msg) : ProxyUse Hook Ref Msg :=
  { use with
    manager := next
    currentAt := use.currentAt ++
      List.replicate (next.delivered.length - use.manager.delivered.length) next.current }

def step (hooks : SingletonHandoff Hook) (use : ProxyUse Hook Ref Msg) :
    ManagerCall Ref Msg → Option (ProxyUse Hook Ref Msg)
  | .send msg =>
    match use.manager.bufferOrDeliver msg with
    | (next, true) => some { use.after next with accepted := use.accepted ++ [msg] }
    | (next, false) => some { use.after next with refused := use.refused + 1 }
  | .setActiveHere ref => some (use.after (use.manager.setActiveHere hooks ref))
  | .setActiveRemote ref => some (use.after (use.manager.setActiveRemote ref))
  | .beginHandover => some (use.after (use.manager.beginHandover hooks))
  | .beginStarting => some (use.after use.manager.beginStarting)
  | .clear => some (use.after use.manager.clear)

end ProxyUse

structure BufferView (Ref Msg : Type) where
  current : Option Ref
  buffer : List Msg
  bufferSize : Nat
  drops : UInt64
  delivered : List (Msg × Ref)

namespace ClusterSingletonManager

def view (manager : ClusterSingletonManager Hook Ref Msg) : BufferView Ref Msg :=
  ⟨manager.current, manager.buffer, manager.bufferSize, manager.drops, manager.delivered⟩

theorem view_setActiveHere (hooks : SingletonHandoff Hook) (mgr : ClusterSingletonManager Hook Ref Msg)
    (ref : Ref) : (mgr.setActiveHere hooks ref).view =
      { mgr.view with
        current := some ref, buffer := [], delivered := mgr.delivered ++ mgr.buffer.map (·, ref) } := by
  unfold setActiveHere runAssume
  dsimp only
  split <;> rfl

theorem view_beginHandover (hooks : SingletonHandoff Hook) (mgr : ClusterSingletonManager Hook Ref Msg) :
    (mgr.beginHandover hooks).view = { mgr.view with current := none } := by
  unfold beginHandover
  split <;> rfl

end ClusterSingletonManager

namespace ProxyUse

variable {hooks : SingletonHandoff Hook} {use next : ProxyUse Hook Ref Msg} {call : ManagerCall Ref Msg}

inductive Effect (use next : ProxyUse Hook Ref Msg) : Prop where
  | activated (ref : Ref)
      (view : next.manager.view = { use.manager.view with
        current := some ref, buffer := [],
        delivered := use.manager.delivered ++ use.manager.buffer.map (·, ref) })
      (records : next.accepted = use.accepted ∧ next.refused = use.refused ∧
        next.currentAt = use.currentAt ++ List.replicate use.manager.buffer.length (some ref))
  | deactivated (view : next.manager.view = { use.manager.view with current := none })
      (records : next.accepted = use.accepted ∧ next.refused = use.refused ∧ next.currentAt = use.currentAt)
  | delivered (msg : Msg) (ref : Ref) (active : use.manager.current = some ref)
      (view : next.manager.view = { use.manager.view with delivered := use.manager.delivered ++ [(msg, ref)] })
      (records : next.accepted = use.accepted ++ [msg] ∧ next.refused = use.refused ∧
        next.currentAt = use.currentAt ++ [some ref])
  | buffered (msg : Msg) (waiting : use.manager.current = none)
      (room : use.manager.buffer.length < use.manager.bufferSize)
      (view : next.manager.view = { use.manager.view with buffer := use.manager.buffer ++ [msg] })
      (records : next.accepted = use.accepted ++ [msg] ∧ next.refused = use.refused ∧
        next.currentAt = use.currentAt)
  | refused (waiting : use.manager.current = none)
      (view : next.manager.view = { use.manager.view with drops := use.manager.drops + 1 })
      (records : next.accepted = use.accepted ∧ next.refused = use.refused + 1 ∧ next.currentAt = use.currentAt)

variable {manager : ClusterSingletonManager Hook Ref Msg}

theorem effect_of_activated (ref : Ref) (view : manager.view = { use.manager.view with
      current := some ref, buffer := [],
      delivered := use.manager.delivered ++ use.manager.buffer.map (·, ref) }) : Effect use (use.after manager) := by
  refine .activated ref view ⟨rfl, rfl, ?_⟩
  have cur : manager.current = some ref := congrArg BufferView.current view
  have del : manager.delivered = _ := congrArg BufferView.delivered view
  simp [after, cur, del]

theorem effect_of_deactivated (view : manager.view = { use.manager.view with current := none }) :
    Effect use (use.after manager) := by
  refine .deactivated view ⟨rfl, rfl, ?_⟩
  have del : manager.delivered = use.manager.delivered := congrArg BufferView.delivered view
  simp [after, del]

theorem step_effect (taken : use.step hooks call = some next) : Effect use next := by
  cases call with
  | send m =>
    rw [step, ClusterSingletonManager.bufferOrDeliver] at taken
    cases active : use.manager.current with
    | some ref =>
      rw [active] at taken
      cases taken
      refine .delivered m ref active rfl ⟨rfl, rfl, ?_⟩
      simp only [after, length_append, Nat.add_sub_cancel_left]
      exact congrArg (fun cur => use.currentAt ++ [cur]) active
    | none =>
      rw [active] at taken
      by_cases full : use.manager.buffer.length ≥ use.manager.bufferSize
      · simp only [if_pos full] at taken
        cases taken
        exact .refused active rfl ⟨rfl, rfl, by simp [after]⟩
      · simp only [if_neg full] at taken
        cases taken
        exact .buffered m active (by omega) rfl ⟨rfl, rfl, by simp [after]⟩
  | setActiveHere ref =>
    cases taken
    exact effect_of_activated ref (use.manager.view_setActiveHere hooks ref)
  | setActiveRemote ref =>
    cases taken
    exact effect_of_activated ref rfl
  | beginHandover =>
    cases taken
    exact effect_of_deactivated (use.manager.view_beginHandover hooks)
  | beginStarting =>
    cases taken
    exact effect_of_deactivated rfl
  | clear =>
    cases taken
    exact effect_of_deactivated rfl

/-- The accepted sends are those delivered and then those kept, the deliveries went to the singleton
of their moment, the buffer keeps its bound and is empty while there is one, and drops are counted. -/
structure Orderly (bufferSize : Nat) (use : ProxyUse Hook Ref Msg) : Prop where
  order : use.manager.delivered.map Prod.fst ++ use.manager.buffer = use.accepted
  currentAt : (use.manager.delivered.map fun delivery => some delivery.2) = use.currentAt
  empty : use.manager.current.isSome → use.manager.buffer = []
  size : use.manager.bufferSize = bufferSize
  bounded : use.manager.buffer.length ≤ bufferSize
  drops : use.manager.drops = .ofNat use.refused

variable {bufferSize : Nat}

theorem Orderly.of_view {view : BufferView Ref Msg} (shown : next.manager.view = view)
    (order : view.delivered.map Prod.fst ++ view.buffer = next.accepted)
    (currentAt : (view.delivered.map fun delivery => some delivery.2) = next.currentAt)
    (empty : view.current.isSome → view.buffer = []) (size : view.bufferSize = bufferSize)
    (bdd : view.buffer.length ≤ bufferSize) (drops : view.drops = .ofNat next.refused) :
    next.Orderly bufferSize := by
  subst shown
  exact ⟨order, currentAt, empty, size, bdd, drops⟩

theorem orderly_effect (ord : use.Orderly bufferSize) (eff : Effect use next) : next.Orderly bufferSize := by
  obtain ⟨order, currentAt, empty, size, bdd, drops⟩ := ord
  cases eff with
  | activated ref view recs =>
    obtain ⟨acc, refused, rec⟩ := recs
    refine .of_view view ?_ ?_ (fun _ => rfl) size (Nat.zero_le _) (refused ▸ drops)
    · rw [acc, ← order]
      simp [Function.comp_def]
    · rw [rec, ← currentAt]
      simp [Function.comp_def]
  | deactivated view recs =>
    obtain ⟨acc, refused, rec⟩ := recs
    refine .of_view view (acc ▸ order) (rec ▸ currentAt) (fun active => ?_) size bdd (refused ▸ drops)
    cases active
  | delivered m ref active view recs =>
    obtain ⟨acc, refused, rec⟩ := recs
    have none : use.manager.buffer = [] := empty (by rw [active]; rfl)
    refine .of_view view ?_ ?_ (fun _ => none) size bdd (refused ▸ drops)
    · rw [acc, ← order]
      simp [ClusterSingletonManager.view, none]
    · rw [rec, ← currentAt]
      simp
  | buffered m waiting room view recs =>
    obtain ⟨acc, refused, rec⟩ := recs
    refine .of_view view ?_ (rec ▸ currentAt) (fun active => ?_) size ?_ (refused ▸ drops)
    · rw [acc, ← order]
      exact (append_assoc _ _ _).symm
    · rw [ClusterSingletonManager.view, waiting] at active
      cases active
    · rw [length_append, length_singleton]
      omega
  | refused waiting view recs =>
    obtain ⟨acc, refused, rec⟩ := recs
    refine .of_view view (acc ▸ order) (rec ▸ currentAt) (fun active => ?_) size bdd ?_
    · rw [ClusterSingletonManager.view, waiting] at active
      cases active
    · rw [refused, UInt64.ofNat_add, ← drops]
      rfl

theorem extends_effect (eff : Effect use next) :
    use.manager.delivered <+: next.manager.delivered ∧ use.accepted <+: next.accepted := by
  cases eff with
  | activated ref view recs =>
    rw [recs.1]
    exact ⟨⟨_, (congrArg BufferView.delivered view).symm⟩, prefix_rfl⟩
  | deactivated view recs =>
    rw [recs.1]
    exact ⟨⟨_, (append_nil _).trans (congrArg BufferView.delivered view).symm⟩, prefix_rfl⟩
  | delivered m ref active view recs =>
    exact ⟨⟨_, (congrArg BufferView.delivered view).symm⟩, ⟨_, recs.1.symm⟩⟩
  | buffered m waiting room view recs =>
    exact ⟨⟨_, (append_nil _).trans (congrArg BufferView.delivered view).symm⟩, ⟨_, recs.1.symm⟩⟩
  | refused waiting view recs =>
    rw [recs.1]
    exact ⟨⟨_, (append_nil _).trans (congrArg BufferView.delivered view).symm⟩, prefix_rfl⟩

theorem extends_run {guard : ProxyUse Hook Ref Msg → ManagerCall Ref Msg → Prop} {cs : List (ManagerCall Ref Msg)}
    {later : ProxyUse Hook Ref Msg} (run : Run (step hooks) guard use cs later) :
    use.manager.delivered <+: later.manager.delivered ∧ use.accepted <+: later.accepted := by
  induction run with
  | nil use => exact ⟨prefix_rfl, prefix_rfl⟩
  | cons allowed taken rest ih =>
    obtain ⟨del, acc⟩ := extends_effect (step_effect taken)
    exact ⟨del.trans ih.1, acc.trans ih.2⟩

theorem orderly_start (built : manager.Built) : (start manager).Orderly manager.bufferSize := by
  cases built <;> exact ⟨rfl, rfl, fun _ => rfl, rfl, Nat.zero_le _, rfl⟩

/-- After any calls on a manager the sends are in order, and when a singleton is current later on,
what was accepted so far has been delivered first, one by one, and stays delivered. -/
theorem sends_delivered_in_order {manager : ClusterSingletonManager Hook Ref Msg} (built : manager.Built)
    {calls : List (ManagerCall Ref Msg)}
    (run : Run (step hooks) (fun _ _ => True) (start manager) calls use) :
    use.Orderly manager.bufferSize ∧
    ∀ further later, Run (step hooks) (fun _ _ => True) use further later →
      use.manager.delivered <+: later.manager.delivered ∧
      (later.manager.current.isSome → use.accepted <+: later.manager.delivered.map Prod.fst) := by
  have preserve : ∀ (use : ProxyUse Hook Ref Msg) call next, use.Orderly manager.bufferSize → True →
      use.step hooks call = some next → next.Orderly manager.bufferSize :=
    fun use call next orderly _ taken => orderly_effect orderly (step_effect taken)
  have orderly := run.invariant _ preserve (orderly_start built)
  refine ⟨orderly, fun further later more => ?_⟩
  have later_orderly := more.invariant _ preserve orderly
  obtain ⟨delivered, accepted⟩ := extends_run more
  refine ⟨delivered, fun active => ?_⟩
  have all := later_orderly.order
  rw [later_orderly.empty active, append_nil] at all
  rw [all]
  exact accepted

/-- Two sends wait, a third is refused, and both are delivered to the singleton that comes up;
after a handover the next one goes to its successor. -/
theorem sends_delivered_after_handover :
    ∃ use : ProxyUse Unit Nat Nat,
      Run (step noHandoff) (fun _ _ => True) (start (.withBufferSize 2))
        [.send 10, .beginStarting, .send 11, .send 12, .setActiveHere 1, .beginHandover, .send 13, .setActiveRemote 2]
        use ∧
      use.manager.delivered = [(10, 1), (11, 1), (13, 2)] ∧ use.manager.drops = 1 ∧ use.Orderly 2 := by
  exact Run.executed rfl fun run => ⟨rfl, rfl, (sends_delivered_in_order (.withBufferSize 2) run).1⟩

end ProxyUse

end Atomr.ClusterTools
