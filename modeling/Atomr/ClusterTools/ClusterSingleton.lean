import Atomr.Library.Runs
import Mathlib.Algebra.Ring.Nat
import Mathlib.Data.Fintype.Basic

/-! The singleton manager of a node: lifecycle, handoff hook, buffered sends and fence tokens.

Each manager counts its own activations, and its tokens are those counts. Comparing them
orders the incarnations of a singleton on one node; the first token of every node is the same.
-/

namespace Atomr.ClusterTools

open Library List

structure FenceToken where
  value : UInt64
  deriving DecidableEq, Repr

instance : LT FenceToken := ⟨fun token other => token.value < other.value⟩

instance (token other : FenceToken) : Decidable (token < other) :=
  inferInstanceAs (Decidable (token.value < other.value))

structure HandoffState where
  bytes : List UInt8
  deriving DecidableEq, Repr

/-- The hook that carries external state over a handover, with its own state. -/
structure SingletonHandoff (Hook : Type) where
  prepareHandoff : Hook → HandoffState × Hook
  assume : Hook → Option HandoffState → FenceToken → Hook

inductive SingletonState (Ref : Type) where
  | inactive
  | starting
  | active (ref : Ref) (here : Bool)
  | handingOver
  deriving DecidableEq, Repr

structure ClusterSingletonManager (Hook Ref Msg : Type) where
  state : SingletonState Ref
  buffer : List Msg
  bufferSize : Nat
  drops : UInt64
  fence : UInt64
  handoff : Option Hook
  prior : Option HandoffState
  delivered : List (Msg × Ref)

namespace ClusterSingletonManager

variable {Hook Ref Msg : Type}

def new : ClusterSingletonManager Hook Ref Msg := ⟨.inactive, [], 1000, 0, 0, none, none, []⟩

def withBufferSize (size : Nat) : ClusterSingletonManager Hook Ref Msg := { new with bufferSize := size }

def withHandoff (handoff : Hook) : ClusterSingletonManager Hook Ref Msg :=
  { (new : ClusterSingletonManager Hook Ref Msg) with handoff := some handoff }

inductive Built : ClusterSingletonManager Hook Ref Msg → Prop where
  | new : Built new
  | withBufferSize (size : Nat) : Built (withBufferSize size)
  | withHandoff (handoff : Hook) : Built (withHandoff handoff)

variable (manager : ClusterSingletonManager Hook Ref Msg)

def flush (target : Ref) : ClusterSingletonManager Hook Ref Msg :=
  { manager with buffer := [], delivered := manager.delivered ++ manager.buffer.map (·, target) }

/-- The hook consumes the state captured by the last handover, if there is a hook. -/
def runAssume (hooks : SingletonHandoff Hook) (manager : ClusterSingletonManager Hook Ref Msg)
    (token : FenceToken) : ClusterSingletonManager Hook Ref Msg :=
  match manager.handoff with
  | some hook => { manager with handoff := some (hooks.assume hook manager.prior token), prior := none }
  | none => manager

def nextToken : FenceToken := ⟨manager.fence + 1⟩

def setActiveHere (hooks : SingletonHandoff Hook) (manager : ClusterSingletonManager Hook Ref Msg) (ref : Ref) :
    ClusterSingletonManager Hook Ref Msg :=
  let token := manager.nextToken
  let assumed := runAssume hooks { manager with fence := token.value } token
  { assumed with state := .active ref true }.flush ref

def setActiveRemote (ref : Ref) : ClusterSingletonManager Hook Ref Msg :=
  { manager with state := .active ref false }.flush ref

def beginHandover (hooks : SingletonHandoff Hook) (manager : ClusterSingletonManager Hook Ref Msg) :
    ClusterSingletonManager Hook Ref Msg :=
  match manager.handoff with
  | some hook =>
    let (captured, hook) := hooks.prepareHandoff hook
    { manager with handoff := some hook, prior := some captured, state := .handingOver }
  | none => { manager with state := .handingOver }

def beginStarting : ClusterSingletonManager Hook Ref Msg :=
  { manager with state := .starting }

def clear : ClusterSingletonManager Hook Ref Msg :=
  { manager with state := .inactive }

def current : Option Ref :=
  match manager.state with
  | .active ref _ => some ref
  | _ => none

/-- The proxy's send: deliver to the singleton, or keep the message while there is room. -/
def bufferOrDeliver (msg : Msg) : ClusterSingletonManager Hook Ref Msg × Bool :=
  match manager.current with
  | some ref => ({ manager with delivered := manager.delivered ++ [(msg, ref)] }, true)
  | none =>
    if manager.buffer.length ≥ manager.bufferSize then ({ manager with drops := manager.drops + 1 }, false)
    else ({ manager with buffer := manager.buffer ++ [msg] }, true)

def activeHere : Bool :=
  match manager.state with
  | .active _ here => here
  | _ => false

theorem Built.fence {mgr : ClusterSingletonManager Hook Ref Msg} (built : mgr.Built) : mgr.fence = 0 := by
  cases built <;> rfl

@[simp]
theorem fence_runAssume (hooks : SingletonHandoff Hook) (mgr : ClusterSingletonManager Hook Ref Msg)
    (token : FenceToken) : (mgr.runAssume hooks token).fence = mgr.fence := by
  unfold runAssume
  split <;> rfl

@[simp]
theorem fence_setActiveHere (hooks : SingletonHandoff Hook) (mgr : ClusterSingletonManager Hook Ref Msg)
    (ref : Ref) : (mgr.setActiveHere hooks ref).fence = mgr.fence + 1 := by
  simp [setActiveHere, flush, nextToken]

@[simp]
theorem fence_beginHandover (hooks : SingletonHandoff Hook) (mgr : ClusterSingletonManager Hook Ref Msg) :
    (mgr.beginHandover hooks).fence = mgr.fence := by
  unfold beginHandover
  split <;> rfl

@[simp]
theorem fence_bufferOrDeliver (m : Msg) : (manager.bufferOrDeliver m).1.fence = manager.fence := by
  unfold bufferOrDeliver
  split
  · rfl
  · split <;> rfl

end ClusterSingletonManager

structure SingletonCluster (ι Hook Ref Msg : Type) where
  managers : ι → ClusterSingletonManager Hook Ref Msg
  tokens : List (ι × FenceToken)

inductive SingletonAction (ι Ref Msg : Type) where
  | setActiveHere (node : ι) (ref : Ref)
  | setActiveRemote (node : ι) (ref : Ref)
  | beginHandover (node : ι)
  | beginStarting (node : ι)
  | clear (node : ι)
  | send (node : ι) (msg : Msg)

variable {ι Hook Ref Msg : Type}

def SingletonAction.activates : SingletonAction ι Ref Msg → Option ι
  | .setActiveHere node _ => some node
  | _ => none

def activations (actions : List (SingletonAction ι Ref Msg)) : List ι := actions.filterMap (·.activates)

variable [DecidableEq ι]

namespace SingletonCluster

def update (cluster : SingletonCluster ι Hook Ref Msg) (node : ι)
    (change : ClusterSingletonManager Hook Ref Msg → ClusterSingletonManager Hook Ref Msg) :
    SingletonCluster ι Hook Ref Msg :=
  { cluster with managers := Function.update cluster.managers node (change (cluster.managers node)) }

def step (hooks : SingletonHandoff Hook) (cluster : SingletonCluster ι Hook Ref Msg) :
    SingletonAction ι Ref Msg → Option (SingletonCluster ι Hook Ref Msg)
  | .setActiveHere node ref =>
    some { cluster.update node (·.setActiveHere hooks ref) with
      tokens := cluster.tokens ++ [(node, (cluster.managers node).nextToken)] }
  | .setActiveRemote node ref => some (cluster.update node (·.setActiveRemote ref))
  | .beginHandover node => some (cluster.update node (·.beginHandover hooks))
  | .beginStarting node => some (cluster.update node (·.beginStarting))
  | .clear node => some (cluster.update node (·.clear))
  | .send node msg => some (cluster.update node fun manager => (manager.bufferOrDeliver msg).1)

end SingletonCluster

/-- A node becomes active only when no other node is. -/
def OneActive (cluster : SingletonCluster ι Hook Ref Msg) : SingletonAction ι Ref Msg → Prop
  | .setActiveHere node _ => ∀ other, other ≠ node → (cluster.managers other).activeHere = false
  | _ => True

inductive Fences (cluster after : SingletonCluster ι Hook Ref Msg) : Option ι → Prop where
  | activated {node : ι}
      (fences : ∀ other, (after.managers other).fence =
        if other = node then (cluster.managers node).fence + 1 else (cluster.managers other).fence)
      (tokens : after.tokens = cluster.tokens ++ [(node, (cluster.managers node).nextToken)]) :
      Fences cluster after (some node)
  | kept (fences : ∀ other, (after.managers other).fence = (cluster.managers other).fence)
      (tokens : after.tokens = cluster.tokens) : Fences cluster after none

variable {hooks : SingletonHandoff Hook} {cluster post : SingletonCluster ι Hook Ref Msg}
  {action : SingletonAction ι Ref Msg} {actions : List (SingletonAction ι Ref Msg)}
  {managers : ι → ClusterSingletonManager Hook Ref Msg}
  {guard : SingletonCluster ι Hook Ref Msg → SingletonAction ι Ref Msg → Prop}

theorem SingletonCluster.fence_update (n other : ι)
    (change : ClusterSingletonManager Hook Ref Msg → ClusterSingletonManager Hook Ref Msg) :
    ((cluster.update n change).managers other).fence =
      if other = n then (change (cluster.managers n)).fence else (cluster.managers other).fence := by
  by_cases eq : other = n
  · subst eq
    simp [SingletonCluster.update]
  · simp [SingletonCluster.update, eq]

theorem fences_of_kept {n : ι}
    {change : ClusterSingletonManager Hook Ref Msg → ClusterSingletonManager Hook Ref Msg}
    (kept : ∀ mgr, (change mgr).fence = mgr.fence) : Fences cluster (cluster.update n change) none := by
  refine .kept (fun other => ?_) rfl
  rw [SingletonCluster.fence_update, kept, ite_eq_right_iff]
  exact fun eq => eq ▸ rfl

theorem step_fences (taken : cluster.step hooks action = some post) : Fences cluster post action.activates := by
  cases action with
  | setActiveHere n ref =>
    cases taken
    exact .activated (fun other => by simpa using cluster.fence_update n other (·.setActiveHere hooks ref)) rfl
  | setActiveRemote n ref | beginStarting n | clear n =>
    cases taken
    exact fences_of_kept fun _ => rfl
  | beginHandover n =>
    cases taken
    exact fences_of_kept fun mgr => mgr.fence_beginHandover hooks
  | send n m =>
    cases taken
    exact fences_of_kept fun mgr => mgr.fence_bufferOrDeliver m

theorem run_activations (run : Run (SingletonCluster.step hooks) guard cluster actions post) :
    post.tokens.map Prod.fst = cluster.tokens.map Prod.fst ++ activations actions := by
  induction run with
  | nil cluster => simp [activations]
  | @cons cluster next final act rest _ taken _ ih =>
    rw [ih]
    have fences := step_fences taken
    generalize active : act.activates = n at fences
    cases fences with
    | activated _ tokens => simp [tokens, activations, active]
    | kept _ tokens => simp [tokens, activations, active]

/-- Every fence counts the activations of its own node, and so does every token. -/
structure Counted (cluster : SingletonCluster ι Hook Ref Msg) : Prop where
  fences : ∀ node, (cluster.managers node).fence = .ofNat (cluster.tokens.countP fun entry => entry.1 = node)
  tokens : ∀ (k : Nat) (bound : k < cluster.tokens.length), cluster.tokens[k].2.value =
    .ofNat ((cluster.tokens.take k).countP (fun entry => entry.1 = cluster.tokens[k].1) + 1)

theorem Counted.step {n : Option ι} (counted : Counted cluster) (fences : Fences cluster post n) :
    Counted post := by
  cases fences with
  | kept fences tokens =>
    refine ⟨fun n => ?_, ?_⟩
    · rw [fences, tokens, counted.fences]
    · simpa [tokens] using counted.tokens
  | @activated active fences tokens =>
    constructor
    · intro n
      rw [fences, tokens, counted.fences, counted.fences]
      by_cases eq : n = active
      · simp [eq]
      · simp [eq, Ne.symm eq]
    · rw [tokens]
      intro k bound
      rw [length_append] at bound
      rcases Nat.lt_succ_iff_lt_or_eq.mp bound with old | rfl
      · simp only [getElem_append_left old, take_append_of_le_length (le_of_lt old)]
        exact counted.tokens k old
      · simp [ClusterSingletonManager.nextToken, counted.fences]

theorem run_counted (run : Run (SingletonCluster.step hooks) guard ⟨managers, []⟩ actions cluster)
    (built : ∀ n, (managers n).Built) : Counted cluster := by
  refine run.invariant Counted (fun _ _ _ counted _ taken => counted.step (step_fences taken)) ⟨fun n => ?_, nofun⟩
  exact (built n).fence

variable {entry : ι × FenceToken}

theorem Counted.first_token (counted : Counted cluster) (mem : entry ∈ cluster.tokens) :
    ∃ (k : Nat) (bound : k < cluster.tokens.length), cluster.tokens[k].1 = entry.1 ∧
      cluster.tokens[k].2.value = 1 := by
  have bound := findIdx_lt_length_of_exists (p := fun h => h.1 = entry.1) ⟨entry, mem, by simp⟩
  have found : cluster.tokens[cluster.tokens.findIdx fun h => h.1 = entry.1].1 = entry.1 := by
    simpa using findIdx_getElem (w := bound)
  refine ⟨_, bound, found, ?_⟩
  rw [counted.tokens, found, countP_eq_zero.mpr]
  · rfl
  · intro h earlier
    obtain ⟨k, pre, rfl⟩ := mem_take_iff_getElem.mp earlier
    simpa using not_of_lt_findIdx (lt_of_lt_of_le pre (min_le_left _ _))

/-- The first token of every node is the same, so the tokens of two nodes are out of order. -/
theorem Counted.one_node (counted : Counted cluster) (incr : (cluster.tokens.map Prod.snd).Pairwise (· < ·))
    (mem : entry ∈ cluster.tokens) : ∃ bound : 0 < cluster.tokens.length, cluster.tokens[0].1 = entry.1 := by
  obtain ⟨k, bound, n, token⟩ := counted.first_token mem
  have ne : 0 < cluster.tokens.length := Nat.zero_lt_of_lt bound
  refine ⟨ne, ?_⟩
  rcases Nat.eq_zero_or_pos k with rfl | later
  · exact n
  · have less := pairwise_iff_getElem.mp incr 0 k (by simpa using ne) (by simpa using bound) later
    simp only [getElem_map] at less
    have less : cluster.tokens[0].2.value < cluster.tokens[k].2.value := less
    rw [token, counted.tokens 0 ne] at less
    exact absurd less (by simp)

theorem Counted.token (counted : Counted cluster)
    (eq : ∀ e ∈ cluster.tokens, ∀ other ∈ cluster.tokens, e.1 = other.1) {k : Nat}
    (bound : k < cluster.tokens.length) : cluster.tokens[k].2.value.toNat = (k + 1) % 2 ^ 64 := by
  rw [counted.tokens, countP_eq_length.mpr, length_take, min_eq_left (le_of_lt bound),
    UInt64.toNat_ofNat']
  intro e earlier
  simpa using eq e (mem_of_mem_take earlier) _ (getElem_mem bound)

/-- The tokens obtained in a run increase exactly when one node obtained all of them,
and did not run out of tokens. -/
theorem fence_tokens_increase_iff (built : ∀ node, (managers node).Built)
    (run : Run (SingletonCluster.step hooks) guard ⟨managers, []⟩ actions cluster) :
    (cluster.tokens.map Prod.snd).Pairwise (· < ·) ↔
      (∀ node ∈ activations actions, ∀ other ∈ activations actions, node = other) ∧
        (activations actions).length < 2 ^ 64 := by
  have counted := run_counted run built
  have nodes : cluster.tokens.map Prod.fst = activations actions := by simpa using run_activations run
  have members : (∀ node ∈ activations actions, ∀ other ∈ activations actions, node = other) ↔
      ∀ entry ∈ cluster.tokens, ∀ other ∈ cluster.tokens, entry.1 = other.1 := by
    rw [← nodes]
    simp only [forall_mem_map]
  rw [members, ← nodes, length_map]
  constructor
  · intro incr
    have eq : ∀ entry ∈ cluster.tokens, ∀ other ∈ cluster.tokens, entry.1 = other.1 := by
      intro entry mem other present
      obtain ⟨_, left⟩ := counted.one_node incr mem
      obtain ⟨_, right⟩ := counted.one_node incr present
      exact left.symm.trans right
    refine ⟨eq, Nat.lt_of_not_le fun many => ?_⟩
    -- The count of activations 2 ^ 64 wraps to the token 0, below the first one.
    have last : 2 ^ 64 - 1 < cluster.tokens.length := by omega
    have less := pairwise_iff_getElem.mp incr 0 (2 ^ 64 - 1) (by simpa using Nat.zero_lt_of_lt last)
      (by simpa using last) (by decide)
    simp only [getElem_map] at less
    have less := UInt64.lt_iff_toNat_lt.mp (show cluster.tokens[0].2.value < cluster.tokens[2 ^ 64 - 1].2.value from less)
    rw [counted.token eq last] at less
    simp at less
  · rintro ⟨eq, room⟩
    refine pairwise_iff_getElem.mpr fun i j hi hj less => ?_
    rw [length_map] at hi hj
    have earlier := counted.token eq hi
    have later := counted.token eq hj
    simp only [getElem_map]
    exact UInt64.lt_iff_toNat_lt.mpr (by omega)

def noHandoff : SingletonHandoff Unit := ⟨fun hook => (⟨[]⟩, hook), fun hook _ _ => hook⟩

instance [Fintype ι] (cluster : SingletonCluster ι Hook Ref Msg) (action : SingletonAction ι Ref Msg) :
    Decidable (OneActive cluster action) := by
  cases action <;> unfold OneActive <;> infer_instance

/-- The singleton is handed over and started again on the node that had it. -/
theorem fence_tokens_increase_iff_back :
    ∃ cluster : SingletonCluster Bool Unit Nat Nat,
      Run (SingletonCluster.step noHandoff) OneActive ⟨fun _ => .new, []⟩
        [.setActiveHere true 1, .setActiveRemote false 1, .beginHandover true, .send true 5, .beginStarting true,
          .setActiveHere true 2] cluster ∧
      cluster.tokens = [(true, ⟨1⟩), (true, ⟨2⟩)] ∧ (cluster.tokens.map Prod.snd).Pairwise (· < ·) := by
  exact Run.executed rfl fun run => ⟨rfl, (fence_tokens_increase_iff (fun _ => .new) run).mpr (by decide)⟩

/-- A handover to another node repeats the token of the first incarnation. -/
theorem handover_repeats_token :
    ∃ cluster : SingletonCluster Bool Unit Nat Nat,
      Run (SingletonCluster.step noHandoff) OneActive ⟨fun _ => .new, []⟩
        [.setActiveHere true 1, .beginHandover true, .clear true, .beginStarting false, .setActiveHere false 2]
        cluster ∧
      cluster.tokens = [(true, ⟨1⟩), (false, ⟨1⟩)] ∧ ¬ (cluster.tokens.map Prod.snd).Pairwise (· < ·) :=
  ⟨_, Run.of_foldlM rfl, rfl, by decide⟩

end Atomr.ClusterTools
