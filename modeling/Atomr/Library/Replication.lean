import Atomr.Library.Runs
import Mathlib.Algebra.BigOperators.Group.Finset.Piecewise
import Mathlib.Algebra.Order.BigOperators.Group.Finset
import Mathlib.Algebra.Ring.Nat

/-! Replicas that update a state of their own and merge snapshots of one another.

Published snapshots stay available: one may be merged late, again, out of order or
never. Every replica and snapshot carries the set of updates it has received, which
no operation reads; an update records what its origin had received before it. What a
state means is then a function of the history and of the updates received.
-/

namespace Atomr.Library

open List

structure Update (ι Op : Type) where
  origin : ι
  op : Op
  /-- Positions in the history of the updates the origin had received. -/
  past : Finset Nat

structure Replica (S : Type) where
  state : S
  received : Finset Nat

structure Replicas (ι Op S : Type) where
  replica : ι → Replica S
  history : List (Update ι Op)
  snapshots : List (Replica S)

inductive ReplicaAction (ι Op : Type) where
  | update (i : ι) (op : Op)
  | publish (i : ι)
  | receive (i : ι) (index : Nat)

variable {ι Op S : Type}

namespace Replicas

def start (first : S) : Replicas ι Op S := ⟨fun _ => ⟨first, ∅⟩, [], []⟩

def step [DecidableEq ι] (apply : ι → Op → S → S) (merge : S → S → S) (net : Replicas ι Op S) :
    ReplicaAction ι Op → Option (Replicas ι Op S)
  | .update i op =>
    let held := net.replica i
    some { net with
      replica := Function.update net.replica i ⟨apply i op held.state, insert net.history.length held.received⟩
      history := net.history ++ [⟨i, op, held.received⟩] }
  | .publish i => some { net with snapshots := net.snapshots ++ [net.replica i] }
  | .receive i index =>
    (net.snapshots[index]?).map fun snapshot => { net with
      replica := Function.update net.replica i
        ⟨merge (net.replica i).state snapshot.state, (net.replica i).received ∪ snapshot.received⟩ }

/-- A replica, or a snapshot one of them has published. -/
def Holds (net : Replicas ι Op S) (held : Replica S) : Prop := (∃ i, net.replica i = held) ∨ held ∈ net.snapshots

/-- The replica has received every update, directly or through others. -/
def Complete (net : Replicas ι Op S) (i : ι) : Prop := ∀ id < net.history.length, id ∈ (net.replica i).received

end Replicas

/-- The updates exist, and whatever the origin of one had received is among them. -/
structure Closed (history : List (Update ι Op)) (received : Finset Nat) : Prop where
  bounded : ∀ id ∈ received, id < history.length
  past : ∀ id ∈ received, ∀ u, history[id]? = some u → u.past ⊆ received

/-- A replica has received its own earlier updates. -/
def Sequential (history : List (Update ι Op)) : Prop :=
  ∀ (first second : Nat) (u v : Update ι Op), first < second → history[first]? = some u → history[second]? = some v →
    u.origin = v.origin → first ∈ v.past

section Histories
variable {hist : List (Update ι Op)} {recv other : Finset Nat} {id : Nat}

theorem getElem?_snoc_of_lt (bound : id < hist.length) (u : Update ι Op) : (hist ++ [u])[id]? = hist[id]? :=
  List.getElem?_append_left bound

theorem getElem?_snoc_length (u : Update ι Op) : (hist ++ [u])[hist.length]? = some u := by simp

variable {u : Update ι Op}

theorem getElem?_snoc {v : Update ι Op} (found : (hist ++ [u])[id]? = some v) :
    hist[id]? = some v ∧ id < hist.length ∨ id = hist.length ∧ v = u := by
  rcases lt_trichotomy id hist.length with pre | rfl | post
  · exact .inl ⟨getElem?_snoc_of_lt pre u ▸ found, pre⟩
  · exact .inr ⟨rfl, by simpa using found.symm⟩
  · rw [List.getElem?_eq_none (by rw [length_append]; exact post)] at found
    cases found

theorem Closed.snoc (closed : Closed hist recv) (u : Update ι Op) : Closed (hist ++ [u]) recv where
  bounded id mem := by
    rw [length_append]
    exact Nat.lt_add_right _ (closed.bounded id mem)
  past id mem v found := by
    rw [getElem?_snoc_of_lt (closed.bounded id mem)] at found
    exact closed.past id mem v found

theorem Closed.insert_new (closed : Closed hist recv) (past : u.past = recv) :
    Closed (hist ++ [u]) (insert hist.length recv) where
  bounded id mem := by
    rw [length_append]
    rcases Finset.mem_insert.mp mem with rfl | old
    · exact Nat.lt_add_one _
    · exact Nat.lt_add_right _ (closed.bounded id old)
  past id mem v found := by
    rcases Finset.mem_insert.mp mem with rfl | old
    · obtain rfl : u = v := by simpa using found
      exact past ▸ Finset.subset_insert _ _
    · exact ((closed.snoc u).past id old v found).trans (Finset.subset_insert _ _)

theorem Closed.union (left : Closed hist recv) (right : Closed hist other) : Closed hist (recv ∪ other) where
  bounded id mem := (Finset.mem_union.mp mem).elim (left.bounded id) (right.bounded id)
  past id mem u found := by
    rcases Finset.mem_union.mp mem with here | there
    · exact (left.past id here u found).trans Finset.subset_union_left
    · exact (right.past id there u found).trans Finset.subset_union_right

theorem Sequential.snoc (sequential : Sequential hist)
    (own : ∀ id v, hist[id]? = some v → v.origin = u.origin → id ∈ u.past) : Sequential (hist ++ [u]) := by
  intro first second v w pre found later eq
  rcases getElem?_snoc later with ⟨later, bound⟩ | ⟨rfl, rfl⟩
  · exact sequential first second v w pre (getElem?_snoc_of_lt (pre.trans bound) u ▸ found) later eq
  · exact own first v (getElem?_snoc_of_lt pre w ▸ found) eq

/-- Of the updates of one origin, two closed sets hold a shorter and a longer prefix. -/
theorem Closed.comparable (sequential : Sequential hist) (left : Closed hist recv)
    (right : Closed hist other) (j : ι) :
    (∀ id ∈ recv, ∀ u, hist[id]? = some u → u.origin = j → id ∈ other) ∨
      (∀ id ∈ other, ∀ u, hist[id]? = some u → u.origin = j → id ∈ recv) := by
  by_contra neither
  simp only [not_or, not_forall] at neither
  obtain ⟨⟨a, here, u, atA, ofA, missing⟩, b, there, v, atB, ofB, lacking⟩ := neither
  rcases lt_trichotomy a b with pre | rfl | post
  · exact missing (right.past b there v atB (sequential a b u v pre atA atB (ofA.trans ofB.symm)))
  · exact missing there
  · exact lacking (left.past a here u atA (sequential b a v u post atB atA (ofB.trans ofA.symm)))

end Histories

structure Causal (net : Replicas ι Op S) : Prop where
  sequential : Sequential net.history
  closed : ∀ held, net.Holds held → Closed net.history held.received
  own : ∀ i id u, net.history[id]? = some u → u.origin = i → id ∈ (net.replica i).received

theorem Causal.start (first : S) : Causal (.start first : Replicas ι Op S) where
  sequential _ _ _ _ _ found := by simp [Replicas.start] at found
  closed h known := by
    rcases known with ⟨_, rfl⟩ | pub
    · exact ⟨by simp [Replicas.start], by simp [Replicas.start]⟩
    · cases pub
  own _ _ _ found := by simp [Replicas.start] at found

section Runs
variable {apply : ι → Op → S → S} {merge : S → S → S} {first : S}
  {guard : Replicas ι Op S → ReplicaAction ι Op → Prop}

/-- A meaning of states that merges respect, and the updates that are allowed at a replica. -/
structure InterpretsWhen (apply : ι → Op → S → S) (merge : S → S → S) (first : S)
    (allowed : List (Update ι Op) → Replica S → ι → Op → Prop)
    (Means : List (Update ι Op) → Finset Nat → S → Prop) : Prop where
  start : Means [] ∅ first
  frame : ∀ history received state u, Closed history received → Means history received state →
    Means (history ++ [u]) received state
  update : ∀ history received state i op, Closed history received →
    (∀ id u, history[id]? = some u → u.origin = i → id ∈ received) → allowed history ⟨state, received⟩ i op →
    Means history received state →
    Means (history ++ [⟨i, op, received⟩]) (insert history.length received) (apply i op state)
  merge : ∀ history received other state state', Sequential history → Closed history received →
    Closed history other → Means history received state → Means history other state' →
    Means history (received ∪ other) (merge state state')

variable {Means : List (Update ι Op) → Finset Nat → S → Prop}
  {allowed : List (Update ι Op) → Replica S → ι → Op → Prop}

/-- Every update is allowed. -/
abbrev Interprets (apply : ι → Op → S → S) (merge : S → S → S) (first : S)
    (Means : List (Update ι Op) → Finset Nat → S → Prop) : Prop :=
  InterpretsWhen apply merge first (fun _ _ _ _ => True) Means

def Known (Means : List (Update ι Op) → Finset Nat → S → Prop) (net : Replicas ι Op S) : Prop :=
  ∀ held, net.Holds held → Means net.history held.received held.state

theorem InterpretsWhen.known_start (int : InterpretsWhen apply merge first allowed Means) :
    Known Means (.start first : Replicas ι Op S) := by
  rintro h (⟨_, rfl⟩ | pub)
  · exact int.start
  · cases pub

variable [DecidableEq ι] {act : ReplicaAction ι Op} {net next : Replicas ι Op S} {acts : List (ReplicaAction ι Op)}
  (taken : net.step apply merge act = some next)
include taken

/-- A step replaces the state of one replica, or publishes one. -/
theorem Replicas.step_holds {h : Replica S} (post : next.Holds h) :
    net.Holds h ∨
      (∃ i op, act = .update i op ∧ next.history = net.history ++ [⟨i, op, (net.replica i).received⟩] ∧
        h = ⟨apply i op (net.replica i).state, insert net.history.length (net.replica i).received⟩) ∨
      ∃ i snap, snap ∈ net.snapshots ∧ next.history = net.history ∧
        h = ⟨merge (net.replica i).state snap.state, (net.replica i).received ∪ snap.received⟩ := by
  cases act with
  | update i op =>
    cases taken
    rcases post with ⟨j, eq⟩ | pub
    · by_cases here : j = i
      · subst here
        exact .inr (.inl ⟨j, op, rfl, rfl, by simpa using eq.symm⟩)
      · exact .inl (.inl ⟨j, by simpa [here] using eq⟩)
    · exact .inl (.inr pub)
  | publish i =>
    cases taken
    rcases post with eq | pub
    · exact .inl (.inl eq)
    · rcases mem_append.mp pub with old | new
      · exact .inl (.inr old)
      · exact .inl (.inl ⟨i, (mem_singleton.mp new).symm⟩)
  | receive i idx =>
    obtain ⟨snap, found, rfl⟩ := Option.map_eq_some_iff.mp taken
    rcases post with ⟨j, eq⟩ | pub
    · by_cases here : j = i
      · subst here
        exact .inr (.inr ⟨j, snap, mem_of_getElem? found, rfl, by simpa using eq.symm⟩)
      · exact .inl (.inl ⟨j, by simpa [here] using eq⟩)
    · exact .inl (.inr pub)

theorem Replicas.step_history :
    next.history = net.history ∨ ∃ i op, act = .update i op ∧
      next.history = net.history ++ [⟨i, op, (net.replica i).received⟩] := by
  cases act with
  | update i op =>
    cases taken
    exact .inr ⟨i, op, rfl, rfl⟩
  | publish i =>
    cases taken
    exact .inl rfl
  | receive i idx =>
    obtain ⟨snap, -, rfl⟩ := Option.map_eq_some_iff.mp taken
    exact .inl rfl

theorem Replicas.step_received (j : ι) : (net.replica j).received ⊆ (next.replica j).received := by
  cases act with
  | update i op =>
    cases taken
    by_cases here : j = i
    · subst here
      simp
    · simp [here]
  | publish i =>
    cases taken
    exact Finset.Subset.refl _
  | receive i idx =>
    obtain ⟨snap, -, rfl⟩ := Option.map_eq_some_iff.mp taken
    by_cases here : j = i
    · subst here
      simp
    · simp [here]
omit taken

theorem Causal.step (causal : Causal net) (taken : net.step apply merge act = some next) : Causal next where
  sequential := by
    rcases Replicas.step_history taken with eq | ⟨i, op, -, grown⟩
    · exact eq ▸ causal.sequential
    · exact grown ▸ causal.sequential.snoc (causal.own i)
  closed h post := by
    rcases Replicas.step_holds taken post with pre | ⟨i, op, -, grown, rfl⟩ | ⟨i, snap, known, eq, rfl⟩
    · rcases Replicas.step_history taken with eq | ⟨i, op, -, grown⟩
      · exact eq ▸ causal.closed h pre
      · exact grown ▸ (causal.closed h pre).snoc _
    · exact grown ▸ (causal.closed _ (.inl ⟨i, rfl⟩)).insert_new rfl
    · exact eq ▸ (causal.closed _ (.inl ⟨i, rfl⟩)).union (causal.closed _ (.inr known))
  own j id u found eq := by
    rcases Replicas.step_history taken with kept | ⟨i, op, rfl, grown⟩
    · exact Replicas.step_received taken j (causal.own j id u (kept ▸ found) eq)
    · rcases getElem?_snoc (grown ▸ found) with ⟨old, -⟩ | ⟨rfl, rfl⟩
      · exact Replicas.step_received taken j (causal.own j id u old eq)
      · cases taken
        cases eq
        simp

theorem Replicas.run_causal (run : Run (Replicas.step apply merge) guard (.start first) acts net) : Causal net :=
  run.invariant Causal (fun _ _ _ causal _ taken => causal.step taken) (.start first)

theorem InterpretsWhen.known_step (int : InterpretsWhen apply merge first allowed Means) (causal : Causal net)
    (known : Known Means net) (permitted : ∀ i op, act = .update i op → allowed net.history (net.replica i) i op)
    (taken : net.step apply merge act = some next) : Known Means next := by
  intro h post
  rcases Replicas.step_holds taken post with pre | ⟨i, op, isUpdate, grown, rfl⟩ |
    ⟨i, snap, pub, eq, rfl⟩
  · rcases Replicas.step_history taken with eq | ⟨i, op, -, grown⟩
    · exact eq ▸ known h pre
    · exact grown ▸ int.frame _ _ _ _ (causal.closed h pre) (known h pre)
  · have own : net.Holds (net.replica i) := .inl ⟨i, rfl⟩
    exact grown ▸ int.update _ _ _ i op (causal.closed _ own) (causal.own i) (permitted i op isUpdate)
      (known _ own)
  · have own : net.Holds (net.replica i) := .inl ⟨i, rfl⟩
    exact eq ▸ int.merge _ _ _ _ _ causal.sequential (causal.closed _ own)
      (causal.closed _ (.inr pub)) (known _ own) (known _ (.inr pub))

/-- Every replica and every snapshot means what the updates it has received say. -/
theorem InterpretsWhen.run (int : InterpretsWhen apply merge first allowed Means)
    (guards : ∀ net i op, guard net (.update i op) → allowed net.history (net.replica i) i op)
    (run : Run (Replicas.step apply merge) guard (.start first) acts net) : Known Means net := by
  refine (run.invariant (fun net => Causal net ∧ Known Means net) ?_ ⟨.start first, int.known_start⟩).2
  intro net act next ⟨causal, known⟩ guarded taken
  refine ⟨causal.step taken, int.known_step causal known (fun i op eq => ?_) taken⟩
  exact guards net i op (eq ▸ guarded)

theorem Interprets.run (int : Interprets apply merge first Means)
    (run : Run (Replicas.step apply merge) guard (.start first) acts net) : Known Means net :=
  InterpretsWhen.run int (fun _ _ _ _ => trivial) run

end Runs

section Tallies
variable [DecidableEq ι] {amount : Op → Nat} {j : ι} {history : List (Update ι Op)} {received other : Finset Nat}

def contribution (amount : Op → Nat) (j : ι) (u : Update ι Op) : Nat :=
  if u.origin = j then amount u.op else 0

def tally (amount : Op → Nat) (j : ι) (history : List (Update ι Op)) (received : Finset Nat) : Nat :=
  ∑ id ∈ received, (history[id]?).elim 0 (contribution amount j)

def nodeTotal (amount : Op → Nat) (j : ι) (history : List (Update ι Op)) : Nat :=
  ((history.filter fun u => u.origin = j).map fun u => amount u.op).sum

def total (amount : Op → Nat) (history : List (Update ι Op)) : Nat := (history.map fun u => amount u.op).sum

theorem tally_snoc (bdd : ∀ id ∈ received, id < history.length) (u : Update ι Op) :
    tally amount j (history ++ [u]) received = tally amount j history received :=
  Finset.sum_congr rfl fun id mem => by rw [getElem?_snoc_of_lt (bdd id mem)]

theorem tally_insert (bdd : ∀ id ∈ received, id < history.length) (u : Update ι Op) :
    tally amount j (history ++ [u]) (insert history.length received) =
      tally amount j history received + contribution amount j u := by
  have fresh : history.length ∉ received := fun mem => lt_irrefl _ (bdd _ mem)
  unfold tally
  rw [Finset.sum_insert fresh, getElem?_snoc_length, add_comm]
  exact congrArg (· + contribution amount j u) (tally_snoc bdd u)

theorem tally_le (subset : ∀ id ∈ received, ∀ u, history[id]? = some u → u.origin = j → id ∈ other) :
    tally amount j history received ≤ tally amount j history other := by
  refine Finset.sum_le_sum_of_ne_zero fun id mem counted => ?_
  cases found : history[id]? with
  | none => simp [found] at counted
  | some u =>
    have ours : u.origin = j := by
      by_contra hfor
      simp [found, contribution, hfor] at counted
    exact subset id mem u found ours

/-- Of the updates of the node, one of the two sets holds all that the other holds. -/
def Comparable (history : List (Update ι Op)) (received other : Finset Nat) (j : ι) : Prop :=
  (∀ id ∈ received, ∀ u ∈ history[id]?, u.origin = j → id ∈ other) ∨
    ∀ id ∈ other, ∀ u ∈ history[id]?, u.origin = j → id ∈ received

theorem tally_union_of_comparable (comparable : Comparable history received other j) :
    tally amount j history (received ∪ other) =
      max (tally amount j history received) (tally amount j history other) := by
  apply le_antisymm
  · rcases comparable with shorter | longer
    · refine le_max_of_le_right (tally_le fun id mem u found ours => ?_)
      exact (Finset.mem_union.mp mem).elim (fun here => shorter id here u found ours) fun there => there
    · refine le_max_of_le_left (tally_le fun id mem u found ours => ?_)
      exact (Finset.mem_union.mp mem).elim (fun here => here) fun there => longer id there u found ours
  · refine max_le (tally_le fun id mem _ _ _ => ?_) (tally_le fun id mem _ _ _ => ?_)
    · exact Finset.mem_union_left _ mem
    · exact Finset.mem_union_right _ mem

/-- The longer of two prefixes holds all there is in the union. -/
theorem tally_union (sequential : Sequential history) (left : Closed history received)
    (right : Closed history other) :
    tally amount j history (received ∪ other) =
      max (tally amount j history received) (tally amount j history other) :=
  tally_union_of_comparable (left.comparable sequential right j)

theorem tally_union_of_disjoint (disjoint : Disjoint received other) :
    tally amount j history (received ∪ other) = tally amount j history received + tally amount j history other :=
  Finset.sum_union disjoint

theorem total_snoc {ι : Type} (amt : Op → Nat) (hist : List (Update ι Op)) (u : Update ι Op) :
    total amt (hist ++ [u]) = total amt hist + amt u.op := by
  simp [total]

theorem nodeTotal_cons (u : Update ι Op) :
    nodeTotal amount j (u :: history) = contribution amount j u + nodeTotal amount j history := by
  by_cases ours : u.origin = j <;> simp [nodeTotal, contribution, ours]

theorem nodeTotal_snoc (u : Update ι Op) :
    nodeTotal amount j (history ++ [u]) = nodeTotal amount j history + contribution amount j u := by
  by_cases ours : u.origin = j <;> simp [nodeTotal, contribution, ours]

theorem tally_range : tally amount j history (Finset.range history.length) = nodeTotal amount j history := by
  induction history using List.reverseRecOn with
  | nil => rfl
  | append_singleton history u ih =>
    rw [length_append, length_singleton, Finset.range_add_one,
      tally_insert (fun _ => Finset.mem_range.mp), ih, nodeTotal_snoc]

theorem nodeTotal_le_total : nodeTotal amount j history ≤ total amount history := by
  induction history with
  | nil => exact le_refl 0
  | cons u history ih =>
    have part : contribution amount j u ≤ amount u.op := by
      unfold contribution
      split
      · exact le_refl _
      · exact Nat.zero_le _
    rw [nodeTotal_cons]
    simpa [total] using Nat.add_le_add part ih

theorem tally_le_total (bdd : ∀ id ∈ received, id < history.length) :
    tally amount j history received ≤ total amount history :=
  calc tally amount j history received
      ≤ tally amount j history (Finset.range history.length) :=
        tally_le fun id mem _ _ _ => Finset.mem_range.mpr (bdd id mem)
    _ = nodeTotal amount j history := tally_range
    _ ≤ total amount history := nodeTotal_le_total

theorem sum_nodeTotal [Fintype ι] : ∑ j, nodeTotal amount j history = total amount history := by
  induction history with
  | nil => simp [nodeTotal, total]
  | cons u history ih =>
    simp only [nodeTotal_cons, Finset.sum_add_distrib, ih, contribution]
    simp [total]

end Tallies

section Accumulators
variable {κ N : Type} {names : ι → N} {apply : ι → Op → S → S} {merge : S → S → S} {first : S}
  {entry : S → κ → N → Nat} {amount : κ → Op → Nat} {clamp : Nat → Nat} {Fits : List (Update ι Op) → Prop}
  {guard : Replicas ι Op S → ReplicaAction ι Op → Prop}

/-- A state with accumulators, for each column one under the name of each node. An
update adds to those of its origin, up to what they can hold; a merge takes the larger.
The histories the accumulators are made for may be restricted. -/
structure Accumulates (names : ι → N) (apply : ι → Op → S → S) (merge : S → S → S) (first : S)
    (entry : S → κ → N → Nat) (amount : κ → Op → Nat) (clamp : Nat → Nat)
    (Fits : List (Update ι Op) → Prop) : Prop where
  monotone : Monotone clamp
  nothing : clamp 0 = 0
  shorter : ∀ history u, Fits (history ++ [u]) → Fits history
  start : ∀ c name, entry first c name = 0
  own : ∀ history u state c sum, Fits (history ++ [u]) →
    sum + amount c u.op ≤ total (amount c) (history ++ [u]) → entry state c (names u.origin) = clamp sum →
    entry (apply u.origin u.op state) c (names u.origin) = clamp (sum + amount c u.op)
  others : ∀ i op state c name, name ≠ names i → entry (apply i op state) c name = entry state c name
  merge : ∀ state other c name, entry (merge state other) c name = max (entry state c name) (entry other c name)

theorem Accumulates.quiet (accum : Accumulates names apply merge first entry amount clamp Fits) :
    Interprets apply merge first fun _ _ st => ∀ c nm, nm ∉ Set.range names → entry st c nm = 0 where
  start c nm _ := accum.start c nm
  frame _ _ _ _ _ means := means
  update _ _ st i op _ _ _ means c nm hfor := by
    rw [accum.others i op st c nm fun eq => hfor ⟨i, eq.symm⟩, means c nm hfor]
  merge _ _ _ _ _ _ _ _ means means' c nm hfor := by
    rw [accum.merge, means c nm hfor, means' c nm hfor, max_self]

variable [DecidableEq ι]

theorem Accumulates.interprets (inj : Function.Injective names)
    (accum : Accumulates names apply merge first entry amount clamp Fits) :
    Interprets apply merge first fun hist recv st =>
      Fits hist → ∀ c j, entry st c (names j) = clamp (tally (amount c) j hist recv) where
  start _ c j := (accum.start c (names j)).trans accum.nothing.symm
  frame hist recv st u closed means fits c j := by
    rw [tally_snoc closed.bounded]
    exact means (accum.shorter hist u fits) c j
  update hist recv st i op closed _ _ means fits c j := by
    have h := means (accum.shorter hist _ fits) c j
    have within : tally (amount c) j (hist ++ [⟨i, op, recv⟩]) (insert hist.length recv) ≤
        total (amount c) (hist ++ [⟨i, op, recv⟩]) := tally_le_total (closed.insert_new rfl).bounded
    rw [tally_insert closed.bounded] at within ⊢
    by_cases here : i = j
    · subst here
      simp only [contribution] at within ⊢
      exact accum.own hist ⟨i, op, recv⟩ st c _ fits within h
    · rw [accum.others i op st c (names j) fun eq => here (inj eq).symm, h]
      simp [contribution, here]
  merge hist recv other st state' sequential left right means means' fits c j := by
    rw [accum.merge, tally_union sequential left right, accum.monotone.map_max, means fits, means' fits]

variable {net : Replicas ι Op S} {acts : List (ReplicaAction ι Op)}
  (accum : Accumulates names apply merge first entry amount clamp Fits)
include accum

/-- No replica is ahead of a node in the accumulators of that node. -/
theorem Accumulates.entry_le_own (inj : Function.Injective names)
    (run : Run (Replicas.step apply merge) guard (.start first) acts net) (fits : Fits net.history) (c : κ)
    (i j : ι) : entry (net.replica i).state c (names j) ≤ entry (net.replica j).state c (names j) := by
  have means := (accum.interprets inj).run run
  rw [means _ (.inl ⟨i, rfl⟩) fits, means _ (.inl ⟨j, rfl⟩) fits]
  exact accum.monotone (tally_le fun id _ u => (Replicas.run_causal run).own j id u)

/-- A replica that has received everything holds the total of every node. -/
theorem Accumulates.entry_complete (inj : Function.Injective names)
    (run : Run (Replicas.step apply merge) guard (.start first) acts net) (fits : Fits net.history) {i : ι}
    (full : net.Complete i) (c : κ) (j : ι) :
    entry (net.replica i).state c (names j) = clamp (nodeTotal (amount c) j net.history) := by
  have everything : (net.replica i).received = Finset.range net.history.length := by
    ext id
    rw [Finset.mem_range]
    exact ⟨((Replicas.run_causal run).closed _ (.inl ⟨i, rfl⟩)).bounded id, full id⟩
  rw [(accum.interprets inj).run run _ (.inl ⟨i, rfl⟩) fits, everything, tally_range]

end Accumulators

end Atomr.Library
