import Atomr.Library.Runs
import Atomr.Library.Table

/-! The handoff of shards from one region to another.

Every shard goes through its own state machine, and a shard that the coordinator does not hold is idle. A call gives
its result and what it leaves of the states.
-/

namespace Atomr.ClusterSharding.Handoff

open Library

inductive HandoffState where
  | idle
  | beginning (sourceRegion : String)
  | handingOff (sourceRegion : String) (remainingEntities : Nat)
  | stopped (sourceRegion : String)
  | started (sourceRegion targetRegion : String)

inductive HandoffError where
  | invalidTransition (shardId : String)

abbrev HandoffCoordinator := Table String HandoffState

variable (coordinator : HandoffCoordinator) (shardId : String)

def state : HandoffState := (coordinator.lookup shardId).getD .idle

/-- Move the shard on where its state has a next one, and refuse the call elsewhere. -/
def transition (next : HandoffState → Option HandoffState) : Except HandoffError Unit × HandoffCoordinator :=
  match next (state coordinator shardId) with
  | some reached => (.ok (), coordinator.insert shardId reached)
  | none => (.error (.invalidTransition shardId), coordinator)

def begin (sourceRegion : String) : Except HandoffError Unit × HandoffCoordinator :=
  -- A shard that is not held is entered as idle before its state is looked at.
  transition (coordinator.upsert shardId (·.getD .idle)) shardId fun
    | .idle | .started .. => some (.beginning sourceRegion)
    | _ => none

def ackBegin (entityCount : Nat) : Except HandoffError Unit × HandoffCoordinator :=
  transition coordinator shardId fun
    | .beginning sourceRegion => some (.handingOff sourceRegion entityCount)
    | _ => none

def entityStopped : Except HandoffError Unit × HandoffCoordinator :=
  transition coordinator shardId fun
    | .handingOff sourceRegion remaining =>
      if remaining ≤ 1 then some (.stopped sourceRegion) else some (.handingOff sourceRegion (remaining - 1))
    | _ => none

def startElsewhere (targetRegion : String) : Except HandoffError Unit × HandoffCoordinator :=
  transition coordinator shardId fun
    | .stopped sourceRegion => some (.started sourceRegion targetRegion)
    | _ => none

def forget : HandoffCoordinator := coordinator.erase shardId

inductive Call where
  | begins (sourceRegion : String)
  | acks (entityCount : Nat)
  | stops
  | starts (targetRegion : String)
  | forgets
  deriving DecidableEq

def perform : Call → Except HandoffError Unit × HandoffCoordinator
  | .begins sourceRegion => begin coordinator shardId sourceRegion
  | .acks entityCount => ackBegin coordinator shardId entityCount
  | .stops => entityStopped coordinator shardId
  | .starts targetRegion => startElsewhere coordinator shardId targetRegion
  | .forgets => (.ok (), forget coordinator shardId)

def Allowed : Call → HandoffState → Prop
  | .begins _, held => held = .idle ∨ ∃ source target, held = .started source target
  | .acks _, held => ∃ source, held = .beginning source
  | .stops, held => ∃ source remaining, held = .handingOff source remaining
  | .starts _, held => ∃ source, held = .stopped source
  | .forgets, _ => True

variable {coordinator shardId} {next : HandoffState → Option HandoffState} {opened final : HandoffCoordinator}
  {call : Call} {calls : List (String × Call)} {shard other source : String} {n stopped : Nat} {allowed : Prop}

variable (coordinator shardId) in
/-- A call succeeds exactly where it is allowed. Refused, it changes nothing, and it never changes another shard. -/
structure Lawful (allowed : Prop) (outcome : Except HandoffError Unit × HandoffCoordinator) : Prop where
  ok_iff : outcome.1 = .ok () ↔ allowed
  refused : ¬allowed → outcome.1 = .error (.invalidTransition shardId) ∧
    ∀ other, state outcome.2 other = state coordinator other
  others : ∀ other, other ≠ shardId → state outcome.2 other = state coordinator other

theorem state_transition : state (transition coordinator shardId next).2 other =
    if other = shardId then (next (state coordinator shardId)).getD (state coordinator shardId)
    else state coordinator other := by
  unfold transition
  by_cases eq : other = shardId
  · subst eq
    cases next (state coordinator other) with
    | none => simp
    | some reached => simp [state]
  · cases next (state coordinator shardId) with
    | none => simp [eq]
    | some reached => simp [state, eq]

theorem transition_result : (transition coordinator shardId next).1 =
    if (next (state coordinator shardId)).isSome then .ok () else .error (.invalidTransition shardId) := by
  unfold transition
  cases next (state coordinator shardId) <;> rfl

theorem state_opened : state (coordinator.upsert shardId (·.getD .idle)) other = state coordinator other := by
  simp only [state, Table.lookup_upsert_if]
  split
  next eq => rw [eq, Option.getD_some]
  · rfl

theorem lawful_transition (eq : ∀ other, state opened other = state coordinator other)
    (enabled : (next (state coordinator shardId)).isSome ↔ allowed) :
    Lawful coordinator shardId allowed (transition opened shardId next) := by
  have unmoved {other : String} (ne : other ≠ shardId ∨ next (state coordinator shardId) = none) :
      state (transition opened shardId next).2 other = state coordinator other := by
    rw [state_transition, eq, eq]
    rcases ne with ne | stays
    · rw [if_neg ne]
    · split
      next here => rw [here, stays, Option.getD_none]
      · rfl
  constructor
  · rw [transition_result, eq, ← enabled]
    split <;> simp [*]
  · intro refused
    rw [← enabled, Bool.not_eq_true, Option.isSome_eq_false_iff, Option.isNone_iff_eq_none] at refused
    refine ⟨?_, fun other => unmoved (.inr refused)⟩
    rw [transition_result, eq, refused]
    rfl
  · exact fun other ne => unmoved (.inl ne)

theorem lawful_perform :
    Lawful coordinator shardId (Allowed call (state coordinator shardId)) (perform coordinator shardId call) := by
  cases call with
  | begins sourceRegion =>
    rw [perform]
    refine lawful_transition (fun _ => state_opened) ?_
    cases state coordinator shardId <;> simp [Allowed]
  | acks entityCount =>
    rw [perform]
    refine lawful_transition (fun _ => rfl) ?_
    cases state coordinator shardId <;> simp [Allowed]
  | stops =>
    rw [perform]
    refine lawful_transition (fun _ => rfl) ?_
    cases state coordinator shardId <;> simp [Allowed, apply_ite]
  | starts targetRegion =>
    rw [perform]
    refine lawful_transition (fun _ => rfl) ?_
    cases state coordinator shardId <;> simp [Allowed]
  | forgets =>
    refine ⟨by simp [perform, Allowed], fun refused => absurd trivial refused, fun other ne => ?_⟩
    simp only [perform, forget, state, Table.lookup_erase_if, if_neg ne]

/-- The calls after which the handoff of the shard is still the same one: those that do not forget the shard and do
not start it elsewhere once it has stopped. -/
def Continues (shard : String) (coordinator : HandoffCoordinator) (call : String × Call) : Prop :=
  call.1 = shard → call.2 ≠ .forgets ∧ ∀ target, call.2 = .starts target →
    ∀ source, state coordinator shard ≠ .stopped source

def draining (source : String) (n stopped : Nat) : HandoffState :=
  if stopped < n then .handingOff source (n - stopped) else .stopped source

/-- A handoff of `n` entities counts them down, whatever other calls come in between, and is over with the last. -/
def Drains (n : Nat) : Prop :=
  ∀ {coordinator begun acked final : HandoffCoordinator} {shard source : String} {calls : List (String × Call)},
    begin coordinator shard source = (.ok (), begun) → ackBegin begun shard n = (.ok (), acked) →
    Run (fun held call => some (perform held call.1 call.2).2) (Continues shard) acked calls final →
      state final shard = draining source n (calls.count (shard, .stops))

theorem state_refused (refused : ¬Allowed call (state coordinator shardId)) :
    state (perform coordinator shardId call).2 other = state coordinator other :=
  (lawful_perform.refused refused).2 other

theorem draining_stops (h : state coordinator shard = draining source n stopped) :
    state (entityStopped coordinator shard).2 shard = draining source n (stopped + 1) := by
  rw [entityStopped, state_transition, h]
  unfold draining
  by_cases left : stopped + 1 < n
  · have more : ¬n - stopped ≤ 1 := by omega
    simp [left, Nat.lt_of_succ_lt left, more, Nat.sub_sub]
  · by_cases one : stopped < n
    · have none : n - stopped ≤ 1 := by omega
      simp [left, one, none]
    · simp [left, one]

theorem draining_step (c : String × Call) (kept : Continues shard coordinator c)
    (h : state coordinator shard = draining source n stopped) :
    state (perform coordinator c.1 c.2).2 shard =
      draining source n (stopped + if c = (shard, .stops) then 1 else 0) := by
  obtain ⟨called, c⟩ := c
  by_cases here : called = shard
  · subst here
    obtain ⟨remains, waits⟩ := kept rfl
    have drained : (∃ left, state coordinator called = .handingOff source left) ∨
        state coordinator called = .stopped source := by
      rw [h]
      unfold draining
      split
      · exact .inl ⟨_, rfl⟩
      · exact .inr rfl
    cases c with
    | begins | acks =>
      rw [state_refused, h]
      · simp
      · rcases drained with ⟨left, drained⟩ | drained <;> simp [Allowed, drained]
    | stops => simpa [perform] using draining_stops h
    | starts tgt =>
      rw [state_refused, h]
      · simp
      · exact fun ⟨source, ended⟩ => waits tgt rfl source ended
    | forgets => exact absurd rfl remains
  · rw [lawful_perform.others shard (Ne.symm here), h, if_neg (by simp [here])]
    rfl

theorem draining_run (run : Run (fun h c => some (perform h c.1 c.2).2) (Continues shard)
    coordinator calls final) (h : state coordinator shard = draining source n stopped) :
    state final shard = draining source n (stopped + calls.count (shard, .stops)) := by
  induction run generalizing stopped with
  | nil => exact h
  | @cons _ _ _ c _ kept taken _ ih =>
    cases taken
    rw [ih (draining_step c kept h), List.count_cons]
    simp only [beq_iff_eq, Nat.add_assoc, Nat.add_comm]

theorem of_transition (moved : transition coordinator shardId next = (.ok (), final)) :
    next (state coordinator shardId) = some (state final shardId) := by
  unfold transition at moved
  split at moved
  next reached next_eq =>
    cases moved
    rw [next_eq]
    simp [state]
  · cases moved

theorem state_acked {begun acked : HandoffCoordinator} (begins : begin coordinator shard source = (.ok (), begun))
    (acks : ackBegin begun shard n = (.ok (), acked)) : state acked shard = .handingOff source n := by
  have beginning := of_transition begins
  have handing := of_transition acks
  revert beginning handing
  cases state (coordinator.upsert shard (·.getD .idle)) shard <;> simp +contextual [eq_comm]

/-- Every call keeps to the states that allow it. A handoff counts down its entities and is over with the last one
exactly where it has any. -/
theorem handoff_drains_iff (n : Nat) :
    (∀ coordinator shardId call, Lawful coordinator shardId (Allowed call (state coordinator shardId))
      (perform coordinator shardId call)) ∧ (Drains n ↔ 0 < n) := by
  refine ⟨fun coordinator shardId call => lawful_perform, fun drains => ?_, fun pos => ?_⟩
  · rcases Nat.eq_zero_or_pos n with rfl | pos
    · let acked := (ackBegin (begin ∅ "shard" "region").2 "shard" 0).2
      have stuck := @drains ∅ _ acked _ "shard" "region" [] rfl rfl (.nil _)
      cases stuck
    · exact pos
  · intro coordinator begun acked final shard source calls begins acks run
    have start : state acked shard = draining source n 0 := by
      rw [state_acked begins acks, draining, if_pos pos, Nat.sub_zero]
    simpa using draining_run run start

/-- A shard without entities has not stopped when its region acknowledges, and it cannot be started elsewhere. -/
theorem handoff_without_entities :
    let acked := (ackBegin (begin ∅ "shard" "region").2 "shard" 0).2
    state acked "shard" = .handingOff "region" 0 ∧
      (startElsewhere acked "shard" "other").1 = .error (.invalidTransition "shard") :=
  ⟨rfl, rfl⟩

end Atomr.ClusterSharding.Handoff
