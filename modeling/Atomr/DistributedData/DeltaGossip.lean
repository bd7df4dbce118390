import Atomr.DistributedData.CounterConvergence
import Atomr.Library.DeltaGossip

/-! Delta gossip beside full-state gossip, for the counter and the signed sum.

A merge takes the larger accumulator and a delta adds to it, so a delta that follows a snapshot
with the same updates counts them twice. The results ask that this does not happen.
-/

namespace Atomr.DistributedData

open Library Table

theorem sum_values_congr {V : Type} (size : V → Nat) {t other : Table String V}
    (eq : t.read size = other.read size) : (t.values.map size).sum = (other.values.map size).sum := by
  -- Both sums run over the names recorded in either table.
  let ns (nm : {nm // nm ∈ t.keys.toFinset ∪ other.keys.toFinset}) : String := nm
  have quiet : ∀ nm, nm ∉ Set.range ns → t.read size nm = 0 := by
    intro nm hfor
    refine read_of_not_mem size t fun mem => hfor ?_
    exact ⟨⟨nm, Finset.mem_union_left _ mem⟩, rfl⟩
  rw [sum_values (Subtype.val_injective : Function.Injective ns) size t quiet,
    sum_values (Subtype.val_injective : Function.Injective ns) size other (eq ▸ quiet), eq]

theorem GCounter.value_congr {a b : GCounter} (eq : Same a b) : a.value = b.value := by
  have sums := sum_values_congr id (eq : a.content = b.content)
  rw [List.map_id, List.map_id] at sums
  rw [value, value, sums]

theorem SignedSum.value_congr {a b : SignedSum} (eq : Same a b) : a.value = b.value := by
  have contents : a.content = b.content := eq
  have side : ∀ {t other : Table String Magnitude}, t.read Fin.val = other.read Fin.val →
      (saturatingSum t).val = (saturatingSum other).val := by
    intro t other eq
    rw [saturatingSum, saturatingSum, foldl_saturatingAdd, foldl_saturatingAdd, sum_values_congr Fin.val eq]
  rw [value, value, side (congrArg Prod.fst contents), side (congrArg Prod.snd contents)]

variable {ι : Type} {names : ι → String}

namespace GCounter

def deltaOps (names : ι → String) : DeltaOps ι Nat GCounter (Table String Nat) where
  apply := apply names
  merge := merge
  takeDelta := takeDelta
  mergeDelta := mergeDelta

theorem read_addInto (t : Table String Nat) (n : String) (d : Nat) (nm : String) :
    (addInto t n d).read id nm =
      if nm = n then (t.read id nm + d) % 2 ^ 64 else t.read id nm := by
  unfold addInto Table.read
  rw [lookup_upsert_if]
  split
  next eq =>
    subst eq
    cases t.lookup nm <;> rfl
  · rfl

theorem content_mergeDelta (ctr : GCounter) {d : Table String Nat} {nm : String}
    (fits : ctr.content nm + d.read id nm < 2 ^ 64) :
    (ctr.mergeDelta d).content nm = ctr.content nm + d.read id nm := by
  unfold content mergeDelta Table.read at *
  rw [lookup_mergeWith]
  cases found : d.lookup nm with
  | none => rfl
  | some more =>
    rw [found] at fits
    cases h : ctr.state.lookup nm with
    | none =>
      rw [h] at fits
      exact Nat.mod_eq_of_lt fits
    | some sum =>
      rw [h] at fits
      exact Nat.mod_eq_of_lt fits

theorem takeDelta_cases (ctr : GCounter) :
    ctr.takeDelta = (none, ctr) ∨
      ctr.takeDelta = (some ctr.pendingDelta, { ctr with pendingDelta := ∅ }) := by
  unfold takeDelta
  split
  · exact .inl rfl
  · exact .inr rfl

theorem deltaAccumulates :
    DeltaAccumulates names (deltaOps names) new (fun ctr (_ : Unit) => ctr.content)
      (fun ctr _ => ctr.pendingDelta.read id) (fun d _ => d.read id) (fun _ d => d) id
      fun hist => total id hist < 2 ^ 64 where
  states := accumulates_within (Nat.le_refl _)
  empty _ _ := rfl
  own hist u ctr _ sum fits within h := by
    have exact : sum + u.op < 2 ^ 64 := Nat.lt_of_le_of_lt within fits
    refine (read_addInto ctr.pendingDelta (names u.origin) u.op (names u.origin)).trans ?_
    rw [if_pos rfl, h]
    exact Nat.mod_eq_of_lt exact
  others i d ctr _ nm ne :=
    (read_addInto ctr.pendingDelta (names i) d nm).trans (if_neg ne)
  merge _ _ := rfl
  none ctr nothing := by
    rcases takeDelta_cases ctr with eq | taken
    · exact congrArg Prod.snd eq
    · exact absurd ((congrArg Prod.fst taken).symm.trans nothing) (by simp)
  taken ctr d something := by
    rcases takeDelta_cases ctr with eq | taken
    · exact absurd ((congrArg Prod.fst eq).symm.trans something) (by simp)
    · obtain rfl : ctr.pendingDelta = d := Option.some.inj ((congrArg Prod.fst taken).symm.trans something)
      have post : ((deltaOps names).takeDelta ctr).2 = { ctr with pendingDelta := ∅ } := congrArg Prod.snd taken
      rw [post]
      exact ⟨rfl, rfl, fun _ _ => rfl⟩
  mergeDelta _ _ := rfl
  add hist ctr d _ nm sum more fits within h hcar := by
    have exact : ctr.content nm + d.read id nm < 2 ^ 64 := by
      rw [h, hcar]
      exact Nat.lt_of_le_of_lt within fits
    refine (content_mergeDelta ctr exact).trans ?_
    rw [h, hcar]
    rfl

end GCounter

namespace SignedSum

def deltaOps (names : ι → String) : DeltaOps ι Int SignedSum SignedSumDelta where
  apply := apply names
  merge := merge
  takeDelta := takeDelta
  mergeDelta := mergeDelta

def ofDelta (delta : SignedSumDelta) : SignedSum := ⟨delta.pos, delta.neg, ∅, ∅⟩

variable (sum : SignedSum)

def pending : SignedSum := ofDelta ⟨sum.pendingPos, sum.pendingNeg⟩

theorem entry_pending_add (n : String) (d : Int) :
    (sum.add n d).pending.entry = (sum.pending.add n d).entry := by
  by_cases sign : d ≥ 0
  · simp only [add, sign]
    rfl
  · simp only [add, sign]
    rfl

theorem read_mergeWith_add (t d : Table String Magnitude) (nm : String) :
    (t.mergeWith (fun h v => Magnitude.saturatingAdd (h.getD Magnitude.zero) v) d).read Fin.val nm =
      saturate (t.read Fin.val nm + d.read Fin.val nm) := by
  unfold Table.read
  rw [lookup_mergeWith]
  cases d.lookup nm with
  | none =>
    cases t.lookup nm with
    | none => rfl
    | some h => exact (Nat.min_eq_left (Nat.le_sub_one_of_lt h.isLt)).symm
  | some more => cases t.lookup nm <;> rfl

theorem entry_mergeDelta (d : SignedSumDelta) (pos : Bool) (nm : String) :
    (sum.mergeDelta d).entry pos nm =
      saturate (sum.entry pos nm + (ofDelta d).entry pos nm) := by
  cases pos <;> exact read_mergeWith_add _ _ nm

theorem takeDelta_cases :
    sum.takeDelta = (none, sum) ∨
      sum.takeDelta = (some ⟨sum.pendingPos, sum.pendingNeg⟩, { sum with pendingPos := ∅, pendingNeg := ∅ }) := by
  unfold takeDelta
  split
  · exact .inl rfl
  · exact .inr rfl

theorem deltaAccumulates :
    DeltaAccumulates names (deltaOps names) new entry (fun sum => sum.pending.entry)
      (fun d => (ofDelta d).entry) amount saturate fun _ => True where
  states := accumulates
  empty pos _ := by cases pos <;> rfl
  own hist u sum pos amounts _ _ h := by
    simp only [deltaOps, apply, entry_pending_add, entry_add, if_true, h, saturate_add]
  others i d sum pos nm ne := by
    simp only [deltaOps, apply, entry_pending_add, entry_add, ne, if_false]
  merge _ _ := rfl
  none sum nothing := by
    rcases takeDelta_cases sum with eq | taken
    · exact congrArg Prod.snd eq
    · exact absurd ((congrArg Prod.fst taken).symm.trans nothing) (by simp)
  taken sum d something := by
    rcases takeDelta_cases sum with eq | taken
    · exact absurd ((congrArg Prod.fst eq).symm.trans something) (by simp)
    · obtain rfl : (⟨sum.pendingPos, sum.pendingNeg⟩ : SignedSumDelta) = d :=
        Option.some.inj ((congrArg Prod.fst taken).symm.trans something)
      have post : ((deltaOps names).takeDelta sum).2 = { sum with pendingPos := ∅, pendingNeg := ∅ } :=
        congrArg Prod.snd taken
      rw [post]
      exact ⟨rfl, rfl, fun pos _ => by cases pos <;> rfl⟩
  mergeDelta _ _ := rfl
  add hist sum d pos nm amounts more _ _ h hcar := by
    rw [deltaOps, entry_mergeDelta, h, hcar]
    unfold saturate
    omega

theorem same_of_entry {a b : SignedSum} (es : a.entry = b.entry) : Same a b :=
  Prod.ext (congrFun es true) (congrFun es false)

end SignedSum

section Gossip
variable [DecidableEq ι]

/-- The nodes make the same updates in both histories, each in its own order. -/
def SameUpdates {Op : Type} (history other : List (Update ι Op)) : Prop :=
  ∀ j, (history.filter fun u => u.origin = j).map Update.op = (other.filter fun u => u.origin = j).map Update.op

variable {Op : Type} {hist other : List (Update ι Op)}

theorem SameUpdates.nodeTotal_eq (eq : SameUpdates hist other) (amt : Op → Nat) (j : ι) :
    nodeTotal amt j hist = nodeTotal amt j other := by
  have amounts : ∀ updates : List (Update ι Op), updates.map (fun u => amt u.op) = (updates.map Update.op).map amt :=
    fun updates => (List.map_map ..).symm
  rw [nodeTotal, nodeTotal, amounts, amounts, eq j]

variable [Fintype ι]

theorem SameUpdates.total_eq (eq : SameUpdates hist other) (amt : Op → Nat) :
    total amt hist = total amt other := by
  rw [← sum_nodeTotal, ← sum_nodeTotal]
  exact Finset.sum_congr rfl fun j _ => eq.nodeTotal_eq amt j

/-- As long as no delta meets its own updates and snapshots are comparable, no replica is ahead of
a node, and replicas with all updates read what full-state gossip gives. -/
theorem delta_gossip_agrees (injective : Function.Injective names) :
    (∀ (actions : List (DeltaAction ι Nat)) (net : DeltaReplicas ι Nat GCounter (Table String Nat)),
      Run (DeltaReplicas.step (GCounter.deltaOps names)) DeltaReplicas.Apart (.start .new) actions net →
      total id net.history < 2 ^ 64 →
      (∀ i j, (net.replica i).state.content (names j) ≤ (net.replica j).state.content (names j)) ∧
      ∀ (others : List (ReplicaAction ι Nat)) (full : Replicas ι Nat GCounter),
        Run (Replicas.step (GCounter.apply names) merge) (fun _ _ => True) (.start .new) others full →
        SameUpdates net.history full.history → ∀ i k, net.Complete i → full.Complete k →
          Same (net.replica i).state (full.replica k).state ∧
            (net.replica i).state.value = (full.replica k).state.value) ∧
    ∀ (actions : List (DeltaAction ι Int)) (net : DeltaReplicas ι Int SignedSum SignedSumDelta),
      Run (DeltaReplicas.step (SignedSum.deltaOps names)) DeltaReplicas.Apart (.start .new) actions net →
      (∀ positive i j, (net.replica i).state.entry positive (names j) ≤
        (net.replica j).state.entry positive (names j)) ∧
      ∀ (others : List (ReplicaAction ι Int)) (full : Replicas ι Int SignedSum),
        Run (Replicas.step (SignedSum.apply names) merge) (fun _ _ => True) (.start .new) others full →
        SameUpdates net.history full.history → ∀ i k, net.Complete i → full.Complete k →
          Same (net.replica i).state (full.replica k).state ∧
            (net.replica i).state.value = (full.replica k).state.value := by
  constructor
  · intro actions net run fits
    refine ⟨GCounter.deltaAccumulates.entry_le_own injective run fits (), ?_⟩
    intro others full snaps eq i k complete complete'
    have fits' : total id full.history < 2 ^ 64 := eq.total_eq id ▸ fits
    have entries := GCounter.deltaAccumulates.entry_eq injective run fits snaps fits'
      (fun _ => eq.nodeTotal_eq id) complete complete'
    have agree : Same (net.replica i).state (full.replica k).state := congrFun entries ()
    exact ⟨agree, GCounter.value_congr agree⟩
  · intro actions net run
    refine ⟨SignedSum.deltaAccumulates.entry_le_own injective run trivial, ?_⟩
    intro others full snaps eq i k complete complete'
    have entries := SignedSum.deltaAccumulates.entry_eq injective run trivial snaps trivial
      (fun positive => eq.nodeTotal_eq (SignedSum.amount positive)) complete complete'
    have agree := SignedSum.same_of_entry entries
    exact ⟨agree, SignedSum.value_congr agree⟩

end Gossip

def mixed {Op : Type} (first second third : Op) : List (DeltaAction Bool Op) :=
  [.update true first, .take true, .deliver false 0, .update true second, .publish true, .receive false 0,
    .update false third, .take false, .deliver true 1]

theorem delta_gossip_agrees_mixed :
    (∃ (net : DeltaReplicas Bool Nat GCounter (Table String Nat)) (full : Replicas Bool Nat GCounter),
      Run (DeltaReplicas.step (GCounter.deltaOps nodeNames)) DeltaReplicas.Apart (.start .new) (mixed 5 7 1) net ∧
      Run (Replicas.step (GCounter.apply nodeNames) merge) (fun _ _ => True) (.start .new) (exchange 5 7 1) full ∧
      (net.replica true).state.value = (full.replica false).state.value) ∧
    ∃ (net : DeltaReplicas Bool Int SignedSum SignedSumDelta) (full : Replicas Bool Int SignedSum),
      Run (DeltaReplicas.step (SignedSum.deltaOps nodeNames)) DeltaReplicas.Apart (.start .new) (mixed 5 (-7) 1) net ∧
      Run (Replicas.step (SignedSum.apply nodeNames) merge) (fun _ _ => True) (.start .new) (exchange 5 (-7) 1) full ∧
      (net.replica true).state.value = (full.replica false).state.value := by
  have inj : Function.Injective nodeNames := by
    rintro (_ | _) (_ | _) eq <;> first | rfl | exact absurd eq (by decide)
  obtain ⟨counters, sums⟩ := delta_gossip_agrees inj
  refine ⟨⟨_, _, Run.of_foldlM rfl, Run.of_foldlM rfl, ?_⟩, _, _, Run.of_foldlM rfl, Run.of_foldlM rfl, ?_⟩
  · refine ((counters (mixed 5 7 1) _ (.of_foldlM rfl) (by decide)).2 (exchange 5 7 1) _ (.of_foldlM rfl) ?_ true false
      ?_ ?_).2
    · unfold SameUpdates
      decide
    · unfold DeltaReplicas.Complete
      decide
    · unfold Replicas.Complete
      decide
  · refine ((sums (mixed 5 (-7) 1) _ (.of_foldlM rfl)).2 (exchange 5 (-7) 1) _ (.of_foldlM rfl) ?_ true false ?_ ?_).2
    · unfold SameUpdates
      decide
    · unfold DeltaReplicas.Complete
      decide
    · unfold Replicas.Complete
      decide

/-- B merges a snapshot of A and then the delta with the same updates: it counts them twice, in
both types, and is ahead of A in the accumulator of A. -/
def countedTwice {Op : Type} (op : Op) : List (DeltaAction Bool Op) :=
  [.update true op, .publish true, .take true, .receive false 0, .deliver false 0]

theorem delta_counted_twice :
    (∃ net : DeltaReplicas Bool Nat GCounter (Table String Nat),
      Run (DeltaReplicas.step (GCounter.deltaOps nodeNames)) (fun _ _ => True) (.start .new) (countedTwice 5) net ∧
      net.Complete false ∧ (net.replica false).state.content "A" = 10 ∧ (net.replica true).state.content "A" = 5) ∧
    ∃ net : DeltaReplicas Bool Int SignedSum SignedSumDelta,
      Run (DeltaReplicas.step (SignedSum.deltaOps nodeNames)) (fun _ _ => True) (.start .new) (countedTwice 5) net ∧
      net.Complete false ∧ (net.replica false).state.entry true "A" = 10 ∧
      (net.replica true).state.entry true "A" = 5 := by
  refine ⟨⟨_, Run.of_foldlM rfl, ?_, by decide, by decide⟩, _, Run.of_foldlM rfl, ?_, by decide, by decide⟩
  · unfold DeltaReplicas.Complete
    decide
  · unfold DeltaReplicas.Complete
    decide

end Atomr.DistributedData
