import Atomr.Library.Replication

/-! Replicas that exchange deltas beside snapshots.

A replica collects its own updates in a pending delta, which it may take out. A taken delta is
delivered to another replica at most once, and adds to what is there; a snapshot is merged as
before. Deltas and pending updates carry the set of updates they stand for, which no operation reads.
-/

namespace Atomr.Library

open List Option Finset

structure DeltaOps (ι Op S D : Type) where
  apply : ι → Op → S → S
  merge : S → S → S
  takeDelta : S → Option D × S
  mergeDelta : S → D → S

structure DeltaReplica (S : Type) extends Replica S where
  pending : Finset Nat

structure TakenDelta (ι D : Type) where
  owner : ι
  delta : D
  updates : Finset Nat

structure DeltaReplicas (ι Op S D : Type) where
  replica : ι → DeltaReplica S
  history : List (Update ι Op)
  snapshots : List (Replica S)
  deltas : List (TakenDelta ι D)
  delivered : List (ι × Nat)

inductive DeltaAction (ι Op : Type) where
  | update (i : ι) (op : Op)
  | take (i : ι)
  | deliver (i : ι) (index : Nat)
  | publish (i : ι)
  | receive (i : ι) (index : Nat)

variable {ι Op S D : Type}

namespace DeltaReplicas

def start (first : S) : DeltaReplicas ι Op S D := ⟨fun _ => ⟨⟨first, ∅⟩, ∅⟩, [], [], [], []⟩

def step [DecidableEq ι] (ops : DeltaOps ι Op S D) (net : DeltaReplicas ι Op S D) :
    DeltaAction ι Op → Option (DeltaReplicas ι Op S D)
  | .update i op =>
    let held := net.replica i
    some { net with
      replica := Function.update net.replica i
        ⟨⟨ops.apply i op held.state, insert net.history.length held.received⟩,
          insert net.history.length held.pending⟩
      history := net.history ++ [⟨i, op, held.received⟩] }
  | .take i =>
    let held := net.replica i
    match ops.takeDelta held.state with
    | (none, state) => some { net with replica := Function.update net.replica i ⟨⟨state, held.received⟩, held.pending⟩ }
    | (some delta, state) => some { net with
        replica := Function.update net.replica i ⟨⟨state, held.received⟩, ∅⟩
        deltas := net.deltas ++ [⟨i, delta, held.pending⟩] }
  | .deliver i index =>
    (net.deltas[index]?).bind fun taken =>
      -- A delta is for the other replicas, and for each of them once.
      if taken.owner = i ∨ (i, index) ∈ net.delivered then none
      else
        let held := net.replica i
        some { net with
          replica := Function.update net.replica i
            ⟨⟨ops.mergeDelta held.state taken.delta, held.received ∪ taken.updates⟩, held.pending⟩
          delivered := net.delivered ++ [(i, index)] }
  | .publish i => some { net with snapshots := net.snapshots ++ [(net.replica i).toReplica] }
  | .receive i index =>
    (net.snapshots[index]?).map fun snapshot =>
      let held := net.replica i
      { net with
        replica := Function.update net.replica i
          ⟨⟨ops.merge held.state snapshot.state, held.received ∪ snapshot.received⟩, held.pending⟩ }

/-- The replica has received every update, in a delta or in a snapshot. -/
def Complete (net : DeltaReplicas ι Op S D) (i : ι) : Prop := ∀ id < net.history.length, id ∈ (net.replica i).received

/-- A delta meets none of its own updates; a snapshot and the replica that merges it have, of
each node, one all the updates that the other has. -/
def Apart [DecidableEq ι] (net : DeltaReplicas ι Op S D) : DeltaAction ι Op → Prop
  | .deliver i index => ∀ taken ∈ net.deltas[index]?, Disjoint (net.replica i).received taken.updates
  | .receive i index => ∀ snapshot ∈ net.snapshots[index]?,
      ∀ j, Comparable net.history (net.replica i).received snapshot.received j
  | .update _ _ | .take _ | .publish _ => True

instance [DecidableEq ι] (history : List (Update ι Op)) (received other : Finset Nat) (j : ι) :
    Decidable (Comparable history received other j) :=
  inferInstanceAs (Decidable (_ ∨ _))

instance [DecidableEq ι] [Fintype ι] (net : DeltaReplicas ι Op S D) (action : DeltaAction ι Op) :
    Decidable (net.Apart action) := by
  cases action <;> unfold Apart <;> infer_instance

end DeltaReplicas

section Numbers
variable {κ N : Type} {names : ι → N} {amount : κ → Op → Nat} {clamp : Nat → Nat} {history : List (Update ι Op)}
  {read read' : κ → N → Nat} {updates updates' : Finset Nat} [DecidableEq ι]

/-- What is read under the name of a node is the total of the given updates of the node, and
nothing is recorded under other names. -/
structure Tallied (names : ι → N) (amount : κ → Op → Nat) (clamp : Nat → Nat) (history : List (Update ι Op))
    (read : κ → N → Nat) (updates : Finset Nat) : Prop where
  bounded : ∀ id ∈ updates, id < history.length
  nodes : ∀ c j, read c (names j) = clamp (tally (amount c) j history updates)
  quiet : ∀ c name, name ∉ Set.range names → read c name = 0

theorem Tallied.empty (nothing : clamp 0 = 0) (zero : ∀ c nm, read c nm = 0) :
    Tallied names amount clamp history read ∅ where
  bounded id mem := by cases mem
  nodes c j := by rw [zero, tally, sum_empty, nothing]
  quiet c nm _ := zero c nm

theorem Tallied.snoc (tal : Tallied names amount clamp history read updates) (u : Update ι Op) :
    Tallied names amount clamp (history ++ [u]) read updates where
  bounded id mem := by
    rw [length_append]
    exact Nat.lt_add_right _ (tal.bounded id mem)
  nodes c j := by rw [tally_snoc tal.bounded, tal.nodes]
  quiet := tal.quiet

theorem Tallied.insert_new (inj : Function.Injective names)
    (tal : Tallied names amount clamp history read updates) {u : Update ι Op}
    (own : ∀ c sum, sum + amount c u.op ≤ total (amount c) (history ++ [u]) → read c (names u.origin) = clamp sum →
      read' c (names u.origin) = clamp (sum + amount c u.op))
    (others : ∀ c nm, nm ≠ names u.origin → read' c nm = read c nm) :
    Tallied names amount clamp (history ++ [u]) read' (insert history.length updates) := by
  have bdd : ∀ id ∈ insert history.length updates, id < (history ++ [u]).length := by
    intro id mem
    rw [length_append]
    rcases mem_insert.mp mem with rfl | old
    · exact Nat.lt_add_one _
    · exact Nat.lt_add_right _ (tal.bounded id old)
  refine ⟨bdd, fun c j => ?_, fun c nm hfor => ?_⟩
  · have within : tally (amount c) j _ _ ≤ _ := tally_le_total bdd
    rw [tally_insert tal.bounded] at within ⊢
    by_cases here : u.origin = j
    · subst here
      simp only [contribution] at within ⊢
      exact own c _ within (tal.nodes c u.origin)
    · rw [others c (names j) fun eq => here (inj eq).symm, tal.nodes]
      simp [contribution, here]
  · rw [others c nm fun eq => hfor ⟨u.origin, eq.symm⟩]
    exact tal.quiet c nm hfor

theorem Tallied.add (nothing : clamp 0 = 0) {sum : κ → N → Nat}
    (left : Tallied names amount clamp history read updates)
    (right : Tallied names amount clamp history read' updates') (disjoint : Disjoint updates updates')
    (adds : ∀ c nm a b, a + b ≤ total (amount c) history → read c nm = clamp a → read' c nm = clamp b →
      sum c nm = clamp (a + b)) :
    Tallied names amount clamp history sum (updates ∪ updates') := by
  have bdd : ∀ id ∈ updates ∪ updates', id < history.length :=
    fun id mem => (mem_union.mp mem).elim (left.bounded id) (right.bounded id)
  refine ⟨bdd, fun c j => ?_, fun c nm hfor => ?_⟩
  · have within : tally (amount c) j _ _ ≤ _ := tally_le_total bdd
    rw [tally_union_of_disjoint disjoint] at within ⊢
    exact adds c (names j) _ _ within (left.nodes c j) (right.nodes c j)
  · have zero : ∀ n, n = 0 → n = clamp 0 := fun n eq => eq.trans nothing.symm
    rw [adds c nm 0 0 (Nat.zero_le _) (zero _ (left.quiet c nm hfor)) (zero _ (right.quiet c nm hfor))]
    exact nothing

theorem Tallied.join (monotone : Monotone clamp) {join : κ → N → Nat}
    (left : Tallied names amount clamp history read updates)
    (right : Tallied names amount clamp history read' updates')
    (comparable : ∀ j, Comparable history updates updates' j)
    (joins : ∀ c nm, join c nm = max (read c nm) (read' c nm)) :
    Tallied names amount clamp history join (updates ∪ updates') where
  bounded id mem := (mem_union.mp mem).elim (left.bounded id) (right.bounded id)
  nodes c j := by
    rw [joins, tally_union_of_comparable (comparable j), monotone.map_max, left.nodes, right.nodes]
  quiet c nm hfor := by rw [joins, left.quiet c nm hfor, right.quiet c nm hfor, Nat.max_self]

end Numbers

section Accumulators
variable {κ N : Type} {names : ι → N} {ops : DeltaOps ι Op S D} {first : S} {entry pending : S → κ → N → Nat}
  {carried : D → κ → N → Nat} {amount : κ → Op → Nat} {clamp : Nat → Nat} {Fits : List (Update ι Op) → Prop}

/-- Accumulators as before, and a second set of them for what is pending. A delta carries what
was pending, and is added to the accumulators of another replica. -/
structure DeltaAccumulates (names : ι → N) (ops : DeltaOps ι Op S D) (first : S) (entry pending : S → κ → N → Nat)
    (carried : D → κ → N → Nat) (amount : κ → Op → Nat) (clamp : Nat → Nat) (Fits : List (Update ι Op) → Prop) :
    Prop where
  states : Accumulates names ops.apply ops.merge first entry amount clamp Fits
  empty : ∀ c name, pending first c name = 0
  own : ∀ history u state c sum, Fits (history ++ [u]) →
    sum + amount c u.op ≤ total (amount c) (history ++ [u]) → pending state c (names u.origin) = clamp sum →
    pending (ops.apply u.origin u.op state) c (names u.origin) = clamp (sum + amount c u.op)
  others : ∀ i op state c name, name ≠ names i → pending (ops.apply i op state) c name = pending state c name
  merge : ∀ state other, pending (ops.merge state other) = pending state
  none : ∀ state, (ops.takeDelta state).1 = none → (ops.takeDelta state).2 = state
  taken : ∀ state delta, (ops.takeDelta state).1 = some delta → carried delta = pending state ∧
    entry (ops.takeDelta state).2 = entry state ∧ ∀ c name, pending (ops.takeDelta state).2 c name = 0
  mergeDelta : ∀ state delta, pending (ops.mergeDelta state delta) = pending state
  add : ∀ history state delta c name sum more, Fits history → sum + more ≤ total (amount c) history →
    entry state c name = clamp sum → carried delta c name = clamp more →
    entry (ops.mergeDelta state delta) c name = clamp (sum + more)

variable [DecidableEq ι]

structure Tracked (names : ι → N) (entry pending : S → κ → N → Nat) (carried : D → κ → N → Nat)
    (amount : κ → Op → Nat) (clamp : Nat → Nat) (net : DeltaReplicas ι Op S D) : Prop where
  replicas : ∀ i, Tallied names amount clamp net.history (entry (net.replica i).state) (net.replica i).received
  pendings : ∀ i, Tallied names amount clamp net.history (pending (net.replica i).state) (net.replica i).pending
  snapshots : ∀ snapshot ∈ net.snapshots,
    Tallied names amount clamp net.history (entry snapshot.state) snapshot.received
  deltas : ∀ taken ∈ net.deltas, Tallied names amount clamp net.history (carried taken.delta) taken.updates

variable {net : DeltaReplicas ι Op S D} (htr : Tracked names entry pending carried amount clamp net)
include htr

theorem Tracked.move {i : ι} (moved : DeltaReplica S) (del : List (ι × Nat))
    (replica : Tallied names amount clamp net.history (entry moved.state) moved.received)
    (pend : Tallied names amount clamp net.history (pending moved.state) moved.pending) :
    Tracked names entry pending carried amount clamp
      { net with replica := Function.update net.replica i moved, delivered := del } where
  replicas j := by
    by_cases here : j = i
    · subst here
      simpa using replica
    · simpa [here] using htr.replicas j
  pendings j := by
    by_cases here : j = i
    · subst here
      simpa using pend
    · simpa [here] using htr.pendings j
  snapshots := htr.snapshots
  deltas := htr.deltas

theorem Tracked.snoc (u : Update ι Op) :
    Tracked names entry pending carried amount clamp { net with history := net.history ++ [u] } where
  replicas i := (htr.replicas i).snoc u
  pendings i := (htr.pendings i).snoc u
  snapshots snap mem := (htr.snapshots snap mem).snoc u
  deltas taken mem := (htr.deltas taken mem).snoc u

theorem Tracked.addSnapshot (i : ι) :
    Tracked names entry pending carried amount clamp
      { net with snapshots := net.snapshots ++ [(net.replica i).toReplica] } where
  replicas := htr.replicas
  pendings := htr.pendings
  snapshots := forall_mem_append.mpr ⟨htr.snapshots, forall_mem_singleton.mpr (htr.replicas i)⟩
  deltas := htr.deltas

theorem Tracked.addDelta (taken : TakenDelta ι D)
    (tal : Tallied names amount clamp net.history (carried taken.delta) taken.updates) :
    Tracked names entry pending carried amount clamp { net with deltas := net.deltas ++ [taken] } where
  replicas := htr.replicas
  pendings := htr.pendings
  snapshots := htr.snapshots
  deltas := forall_mem_append.mpr ⟨htr.deltas, forall_mem_singleton.mpr tal⟩
omit htr

variable (accum : DeltaAccumulates names ops first entry pending carried amount clamp Fits)
  (inj : Function.Injective names) {net next : DeltaReplicas ι Op S D}
include accum

theorem DeltaAccumulates.tracked_start :
    Tracked names entry pending carried amount clamp (.start first : DeltaReplicas ι Op S D) where
  replicas _ := .empty accum.states.nothing accum.states.start
  pendings _ := .empty accum.states.nothing accum.empty
  snapshots _ mem := by cases mem
  deltas _ mem := by cases mem

include inj

theorem DeltaAccumulates.tracked_step {act : DeltaAction ι Op} (apart : net.Apart act)
    (taken : net.step ops act = some next) (fits : Fits next.history)
    (htr : Tracked names entry pending carried amount clamp net) :
    Tracked names entry pending carried amount clamp next := by
  have states := accum.states
  cases act with
  | update i op =>
    cases taken
    let u : Update ι Op := ⟨i, op, (net.replica i).received⟩
    refine (htr.snoc u).move _ net.delivered ?_ ?_
    · exact (htr.replicas i).insert_new inj (fun c sum => states.own net.history u _ c sum fits)
        (states.others i op _)
    · exact (htr.pendings i).insert_new inj (fun c sum => accum.own net.history u _ c sum fits)
        (accum.others i op _)
  | take i =>
    rw [DeltaReplicas.step] at taken
    split at taken
    next st res =>
      cases taken
      obtain rfl : st = (net.replica i).state := by
        have eq := accum.none (net.replica i).state (by rw [res])
        rwa [res] at eq
      exact htr.move _ net.delivered (htr.replicas i) (htr.pendings i)
    next d st res =>
      cases taken
      obtain ⟨carries, kept, zero⟩ := accum.taken (net.replica i).state d (by rw [res])
      rw [res] at kept zero
      have pend : Tallied names amount clamp net.history (pending st) ∅ := .empty states.nothing zero
      have replica : Tallied names amount clamp net.history (entry st) (net.replica i).received :=
        kept ▸ htr.replicas i
      exact (htr.move ⟨⟨st, _⟩, ∅⟩ net.delivered replica pend).addDelta ⟨i, d, _⟩
        (carries ▸ htr.pendings i)
  | deliver i idx =>
    obtain ⟨sent, found, taken⟩ := bind_eq_some_iff.mp taken
    split at taken
    · cases taken
    · cases taken
      refine htr.move _ _ ?_ ?_
      · exact (htr.replicas i).add states.nothing (htr.deltas sent (mem_of_getElem? found))
          (apart sent found) fun c nm a b => accum.add net.history _ _ c nm a b fits
      · rw [accum.mergeDelta]
        exact htr.pendings i
  | publish i =>
    cases taken
    exact htr.addSnapshot i
  | receive i idx =>
    obtain ⟨snap, found, rfl⟩ := map_eq_some_iff.mp taken
    refine htr.move _ net.delivered ?_ ?_
    · exact (htr.replicas i).join states.monotone (htr.snapshots snap (mem_of_getElem? found))
        (apart snap found) (states.merge _ _)
    · rw [accum.merge]
      exact htr.pendings i

end Accumulators

section Runs
variable [DecidableEq ι] {ops : DeltaOps ι Op S D} {first : S} {net next : DeltaReplicas ι Op S D}
  {guard : DeltaReplicas ι Op S D → DeltaAction ι Op → Prop} {acts : List (DeltaAction ι Op)}
  {act : DeltaAction ι Op}

theorem DeltaReplicas.step_history (taken : net.step ops act = some next) :
    next.history = net.history ∨ ∃ i op, act = .update i op ∧
      next.history = net.history ++ [⟨i, op, (net.replica i).received⟩] := by
  cases act with
  | update i op =>
    cases taken
    exact .inr ⟨i, op, rfl, rfl⟩
  | take i =>
    rw [step] at taken
    split at taken <;> cases taken <;> exact .inl rfl
  | deliver i idx =>
    obtain ⟨sent, -, taken⟩ := bind_eq_some_iff.mp taken
    split at taken <;> cases taken
    exact .inl rfl
  | publish i =>
    cases taken
    exact .inl rfl
  | receive i idx =>
    obtain ⟨snap, -, rfl⟩ := map_eq_some_iff.mp taken
    exact .inl rfl

theorem DeltaReplicas.step_received (taken : net.step ops act = some next) (j : ι) :
    (net.replica j).received ⊆ (next.replica j).received := by
  have moves : ∀ i (moved : DeltaReplica S), (net.replica i).received ⊆ moved.received →
      (net.replica j).received ⊆ (Function.update net.replica i moved j).received := by
    intro i moved grown
    by_cases here : j = i
    · subst here
      simpa using grown
    · simp [here]
  cases act with
  | update i op =>
    cases taken
    exact moves i _ (subset_insert _ _)
  | take i =>
    rw [step] at taken
    split at taken <;> cases taken <;> exact moves i _ (Finset.Subset.refl _)
  | deliver i idx =>
    obtain ⟨sent, -, taken⟩ := bind_eq_some_iff.mp taken
    split at taken <;> cases taken
    exact moves i _ subset_union_left
  | publish i =>
    cases taken
    exact Finset.Subset.refl _
  | receive i idx =>
    obtain ⟨snap, -, rfl⟩ := map_eq_some_iff.mp taken
    exact moves i _ subset_union_left

theorem DeltaReplicas.run_own (run : Run (step ops) guard (.start first) acts net) :
    ∀ i id u, net.history[id]? = some u → u.origin = i → id ∈ (net.replica i).received := by
  refine run.invariant
    (fun net => ∀ i id u, net.history[id]? = some u → u.origin = i → id ∈ (net.replica i).received) ?_ ?_
  · intro net act next own _ taken i id u found ours
    rcases step_history taken with eq | ⟨j, op, rfl, grown⟩
    · exact step_received taken i (own i id u (eq ▸ found) ours)
    · rcases getElem?_snoc (grown ▸ found) with ⟨old, -⟩ | ⟨rfl, rfl⟩
      · exact step_received taken i (own i id u old ours)
      · cases taken
        cases ours
        simp
  · intro i id u found
    simp [start] at found

variable {κ N : Type} {ns : ι → N} {e pending : S → κ → N → Nat} {hcar : D → κ → N → Nat}
  {amt : κ → Op → Nat} {cp : Nat → Nat} {Fits : List (Update ι Op) → Prop}
  (accumulates : DeltaAccumulates ns ops first e pending hcar amt cp Fits)
  (inj : Function.Injective ns)
  (run : Run (DeltaReplicas.step ops) DeltaReplicas.Apart (.start first) acts net) (fits : Fits net.history)
include accumulates inj run fits

theorem DeltaAccumulates.tracked : Tracked ns e pending hcar amt cp net := by
  refine run.invariant (fun net => Fits net.history → Tracked ns e pending hcar amt cp net) ?_
    (fun _ => accumulates.tracked_start) fits
  intro net act next htr apart taken fits
  refine accumulates.tracked_step inj apart taken fits (htr ?_)
  rcases DeltaReplicas.step_history taken with eq | ⟨i, op, -, grown⟩
  · exact eq ▸ fits
  · exact accumulates.states.shorter _ _ (grown ▸ fits)

theorem DeltaAccumulates.entry_le_own (c : κ) (i j : ι) :
    e (net.replica i).state c (ns j) ≤ e (net.replica j).state c (ns j) := by
  have htr := accumulates.tracked inj run fits
  rw [(htr.replicas i).nodes, (htr.replicas j).nodes]
  exact accumulates.states.monotone (tally_le fun id _ u => DeltaReplicas.run_own run j id u)

/-- Replicas that have received everything read what they would have read from snapshots alone. -/
theorem DeltaAccumulates.entry_eq {guard : Replicas ι Op S → ReplicaAction ι Op → Prop}
    {others : List (ReplicaAction ι Op)} {gossiped : Replicas ι Op S}
    (snaps : Run (Replicas.step ops.apply ops.merge) guard (.start first) others gossiped)
    (fits' : Fits gossiped.history)
    (eq : ∀ c j, nodeTotal (amt c) j net.history = nodeTotal (amt c) j gossiped.history)
    {i k : ι} (full : net.Complete i) (complete' : gossiped.Complete k) :
    e (net.replica i).state = e (gossiped.replica k).state := by
  have htr := (accumulates.tracked inj run fits).replicas i
  have everything : (net.replica i).received = Finset.range net.history.length := by
    ext id
    rw [Finset.mem_range]
    exact ⟨htr.bounded id, full id⟩
  funext c nm
  by_cases isName : nm ∈ Set.range ns
  · obtain ⟨j, rfl⟩ := isName
    rw [htr.nodes, everything, tally_range, eq,
      accumulates.states.entry_complete inj snaps fits' complete']
  · rw [htr.quiet c nm isName, accumulates.states.quiet.run snaps _ (.inl ⟨k, rfl⟩) c nm isName]

end Runs

end Atomr.Library
