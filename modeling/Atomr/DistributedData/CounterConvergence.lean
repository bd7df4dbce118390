import Atomr.DistributedData.Collections
import Atomr.Library.Replication

/-! Counters on several nodes: what their replicas read once they have received every update.

Each node counts under its own name. The accumulators of the `u64` counters are exact
as long as the totals fit; those of the signed sums are exact up to saturation.
-/

namespace Atomr.DistributedData

open Library List Table

theorem read_of_not_mem {V : Type} (size : V → Nat) (t : Table String V) {nm : String}
    (ha : nm ∉ t.keys.toFinset) : t.read size nm = 0 := by
  have missing : t.lookup nm = none := AList.lookup_eq_none.mpr fun mem =>
    ha (mem_toFinset.mpr (AList.mem_keys.mpr mem))
  simp [Table.read, missing]

/-- Summing the values of a table node by node, when nothing else is recorded in it. -/
theorem sum_values {ι V : Type} [Fintype ι] {ns : ι → String} (inj : Function.Injective ns)
    (size : V → Nat) (t : Table String V)
    (quiet : ∀ nm, nm ∉ Set.range ns → t.read size nm = 0) :
    (t.values.map size).sum = ∑ j, t.read size (ns j) := by
  have es : t.values.map size = t.keys.map (t.read size) := by
    unfold Table.values AList.keys List.keys
    rw [map_map, map_map]
    refine map_congr_left fun found mem => ?_
    have stored : t.lookup found.1 = some found.2 := AList.mem_lookup_iff.mpr mem
    simp [Table.read, stored]
  have hfor : ∀ nm, nm ∉ Finset.univ.image ns → t.read size nm = 0 := by
    intro nm ha
    refine quiet nm fun isName => ?_
    obtain ⟨j, eq⟩ := isName
    exact ha (eq ▸ Finset.mem_image_of_mem ns (Finset.mem_univ j))
  -- Both sums equal the one over the recorded names and those of the nodes together.
  let everything := t.keys.toFinset ∪ Finset.univ.image ns
  calc (t.values.map size).sum
      = ∑ nm ∈ t.keys.toFinset, t.read size nm := by
        rw [es, ← sum_toFinset _ t.keys_nodup]
    _ = ∑ nm ∈ everything, t.read size nm :=
        Finset.sum_subset Finset.subset_union_left fun nm _ => read_of_not_mem size t
    _ = ∑ nm ∈ Finset.univ.image ns, t.read size nm :=
        (Finset.sum_subset Finset.subset_union_right fun nm _ => hfor nm).symm
    _ = ∑ j, t.read size (ns j) := Finset.sum_image inj.injOn

variable {ι : Type} {names : ι → String}

theorem GCounter.content_increment (ctr : GCounter) (n : String) (d : Nat) (nm : String) :
    (ctr.increment n d).content nm =
      if nm = n then (ctr.content nm + d) % 2 ^ 64 else ctr.content nm := by
  unfold content increment Table.read addInto
  rw [lookup_upsert_if]
  split
  next eq =>
    subst eq
    cases ctr.state.lookup nm <;> rfl
  · rfl

def GCounter.apply (names : ι → String) (i : ι) (delta : Nat) (counter : GCounter) : GCounter :=
  counter.increment (names i) delta

/-- The accumulators are exact while the sum of all increments fits into one of them. -/
theorem GCounter.accumulates_within {bound : Nat} (small : bound ≤ 2 ^ 64) :
    Accumulates names (GCounter.apply names) merge GCounter.new (fun ctr (_ : Unit) => ctr.content)
      (fun _ d => d) id fun hist => total id hist < bound where
  monotone := monotone_id
  nothing := rfl
  shorter hist u fits := by
    rw [total_snoc] at fits
    omega
  start _ _ := rfl
  own hist u ctr _ sum fits within h := by
    have exact : sum + u.op < 2 ^ 64 := lt_of_lt_of_le (lt_of_le_of_lt within fits) small
    simp only [GCounter.apply, GCounter.content_increment, h]
    exact Nat.mod_eq_of_lt exact
  others i d ctr _ nm ne := by
    simp only [GCounter.apply, GCounter.content_increment, ne, if_false]
  merge ctr other _ nm := congrFun (GCounter.merge_content ctr other) nm

theorem GCounter.accumulates :
    Accumulates names (GCounter.apply names) merge GCounter.new (fun ctr (_ : Unit) => ctr.content)
      (fun _ d => d) id fun hist => total id hist < 2 ^ 63 :=
  accumulates_within (by decide)

theorem GCounter.value_eq [Fintype ι] (inj : Function.Injective names) {ctr : GCounter}
    (quiet : ∀ nm, nm ∉ Set.range names → ctr.content nm = 0) :
    ctr.value = (∑ j, ctr.content (names j)) % 2 ^ 64 := by
  have sums := sum_values inj id ctr.state quiet
  rw [map_id] at sums
  rw [value, sums]
  rfl

inductive PNOp where
  | increment (delta : Nat)
  | decrement (delta : Nat)
  deriving DecidableEq, Repr

namespace PNCounter

def apply (names : ι → String) (i : ι) : PNOp → PNCounter → PNCounter
  | .increment delta, counter => counter.increment (names i) delta
  | .decrement delta, counter => counter.decrement (names i) delta

def side (positive : Bool) (counter : PNCounter) : GCounter := if positive then counter.inc else counter.dec

def amount : Bool → PNOp → Nat
  | true, .increment delta | false, .decrement delta => delta
  | true, .decrement _ | false, .increment _ => 0

theorem accumulates :
    Accumulates names (apply names) merge PNCounter.new (fun ctr pos => (ctr.side pos).content)
      amount id fun hist => total (amount true) hist < 2 ^ 63 ∧ total (amount false) hist < 2 ^ 63 where
  monotone := monotone_id
  nothing := rfl
  shorter hist u fits := by
    rw [total_snoc, total_snoc] at fits
    omega
  start pos _ := by cases pos <;> rfl
  own hist u ctr pos sum fits within h := by
    obtain ⟨i, op, past⟩ := u
    have bound : sum + amount pos op < 2 ^ 63 := by
      refine lt_of_le_of_lt within ?_
      cases pos
      · exact fits.2
      · exact fits.1
    have exact : (sum + amount pos op) % 2 ^ 64 = sum + amount pos op := Nat.mod_eq_of_lt (by omega)
    -- One of the two counters is incremented; the other is left alone, and its amount is 0.
    cases pos <;> cases op
    case true.increment | false.decrement =>
      refine (GCounter.content_increment _ _ _ _).trans ?_
      rw [if_pos rfl]
      exact (congrArg (fun n => (n + _) % 2 ^ 64) h).trans exact
    case true.decrement | false.increment => exact h
  others i op ctr pos nm ne := by
    cases pos <;> cases op
    case true.increment | false.decrement =>
      exact (GCounter.content_increment _ _ _ _).trans (if_neg ne)
    case true.decrement | false.increment => rfl
  merge ctr other pos nm := by
    cases pos <;> exact congrFun (GCounter.merge_content _ _) nm

theorem value_eq {ctr : PNCounter} (inc : ctr.inc.value < 2 ^ 63) (dec : ctr.dec.value < 2 ^ 63) :
    ctr.value = ctr.inc.value - ctr.dec.value := by
  have small : ∀ n : Int, -2 ^ 63 ≤ n → n < 2 ^ 63 → n.bmod (2 ^ 64) = n := by
    intro n lower upper
    apply Int.bmod_eq_of_le <;> omega
  unfold value
  rw [small ctr.inc.value (by omega) (by omega), small ctr.dec.value (by omega) (by omega),
    small _ (by omega) (by omega)]

end PNCounter

namespace SignedSum

def side (positive : Bool) (sum : SignedSum) : Table String Magnitude := if positive then sum.pos else sum.neg

def amount : Bool → Int → Nat
  | true, delta => delta.toNat
  | false, delta => (-delta).toNat

variable (sum : SignedSum)

def entry (positive : Bool) (name : String) : Nat := (sum.side positive).read Fin.val name

def saturate (n : Nat) : Nat := min n (2 ^ 127 - 1)

theorem read_addInto (t : Table String Magnitude) (n : String) (magnitude : Magnitude) (nm : String) :
    (addInto t n magnitude).read Fin.val nm =
      if nm = n then saturate (t.read Fin.val nm + magnitude.val) else t.read Fin.val nm := by
  unfold addInto Table.read
  rw [lookup_upsert_if]
  split
  next eq =>
    subst eq
    cases t.lookup nm <;> rfl
  · rfl

theorem saturate_entry (pos : Bool) (nm : String) :
    saturate (sum.entry pos nm) = sum.entry pos nm := by
  have bound : sum.entry pos nm < 2 ^ 127 := by
    unfold entry Table.read
    cases (sum.side pos).lookup nm with
    | none => decide
    | some h => exact h.isLt
  exact min_eq_left (Nat.le_sub_one_of_lt bound)

theorem entry_add (n : String) (d : Int) (pos : Bool) (nm : String) :
    (sum.add n d).entry pos nm =
      if nm = n then saturate (sum.entry pos nm + amount pos d)
      else sum.entry pos nm := by
  have sides : amount pos d = 0 ∧ (sum.add n d).side pos = sum.side pos ∨
      amount pos d = d.natAbs ∧
        (sum.add n d).side pos = addInto (sum.side pos) n (.ofDelta d) := by
    by_cases sign : d ≥ 0 <;> cases pos <;> simp [amount, side, add, sign] <;> omega
  rcases sides with ⟨nothing, eq⟩ | ⟨magnitude, moved⟩
  · rw [nothing, add_zero, saturate_entry, ite_self, entry, eq]
    rfl
  · rw [entry, moved, read_addInto]
    split
    · simp only [entry, Magnitude.ofDelta, saturate]
      omega
    · rfl

theorem entry_merge (other : SignedSum) (pos : Bool) (nm : String) :
    (merge sum other).entry pos nm = max (sum.entry pos nm) (other.entry pos nm) := by
  have joined := merge_content sum other
  cases pos
  · exact congrFun (congrArg Prod.snd joined) nm
  · exact congrFun (congrArg Prod.fst joined) nm

theorem monotone_saturate : Monotone saturate := fun _ _ le => min_le_min_right _ le

theorem saturate_add (sum more : Nat) : saturate (saturate sum + more) = saturate (sum + more) := by
  unfold saturate
  omega

def apply (names : ι → String) (i : ι) (delta : Int) (sum : SignedSum) : SignedSum := sum.add (names i) delta

theorem accumulates : Accumulates names (apply names) merge SignedSum.new entry amount saturate fun _ => True where
  monotone := monotone_saturate
  nothing := rfl
  shorter _ _ _ := trivial
  start pos _ := by cases pos <;> rfl
  own _ u sum pos amounts _ _ h := by
    rw [apply, entry_add, if_pos rfl, h, saturate_add]
  others i d sum pos nm ne := by
    rw [apply, entry_add, if_neg ne]
  merge := entry_merge

theorem foldl_saturatingAdd (vals : List Magnitude) (start : Magnitude) :
    (vals.foldl Magnitude.saturatingAdd start).val = saturate (start.val + (vals.map Fin.val).sum) := by
  induction vals generalizing start with
  | nil =>
    simp only [foldl_nil, map_nil, sum_nil, saturate]
    omega
  | cons v rest ih =>
    rw [foldl_cons, ih, map_cons, sum_cons]
    simp only [Magnitude.saturatingAdd, saturate]
    omega

theorem saturatingSum_eq [Fintype ι] (inj : Function.Injective names) {sum : SignedSum} (pos : Bool)
    (quiet : ∀ nm, nm ∉ Set.range names → sum.entry pos nm = 0) :
    (saturatingSum (sum.side pos)).val = saturate (∑ j, sum.entry pos (names j)) := by
  rw [saturatingSum, foldl_saturatingAdd, sum_values inj Fin.val _ quiet, Magnitude.zero, zero_add]
  rfl

def net (positive negative : Nat) : Int := max i128Min (min i128Max (positive - negative))

theorem value_eq :
    sum.value = net (saturatingSum (sum.side true)).val (saturatingSum (sum.side false)).val := rfl

end SignedSum

namespace SignedSumMap

variable {K : Type} [DecidableEq K] (map : SignedSumMap K)

def sumOf (key : K) : SignedSum := (map.entries.lookup key).getD .new

def entry (map : SignedSumMap K) (column : K × Bool) (name : String) : Nat := (map.sumOf column.1).entry column.2 name

def amount (column : K × Bool) (op : K × Int) : Nat :=
  if op.1 = column.1 then SignedSum.amount column.2 op.2 else 0

def apply (names : ι → String) (i : ι) (op : K × Int) (map : SignedSumMap K) : SignedSumMap K :=
  map.add op.1 (names i) op.2

theorem sumOf_add (k other : K) (n : String) (d : Int) :
    (map.add other n d).sumOf k =
      if k = other then (map.sumOf k).add n d else map.sumOf k := by
  unfold sumOf add
  rw [lookup_upsert_if]
  split
  next eq => rw [eq, Option.getD_some]
  · rfl

theorem entry_merge (map other : SignedSumMap K) (column : K × Bool) (nm : String) :
    (merge map other).entry column nm = max (map.entry column nm) (other.entry column nm) := by
  have joined : (merge map other).entries.lookup column.1 = _ :=
    lookup_mergeWith (fun h v => merge (h.getD SignedSum.new) v) map.entries other.entries
      column.1
  unfold entry sumOf
  rw [joined]
  cases other.entries.lookup column.1 with
  | none =>
    have nothing : SignedSum.new.entry column.2 nm = 0 := by cases column.2 <;> rfl
    rw [Option.getD_none, nothing, max_zero]
  | some v => exact SignedSum.entry_merge _ v column.2 nm

theorem accumulates :
    Accumulates names (apply names) merge (SignedSumMap.new : SignedSumMap K) entry amount SignedSum.saturate
      fun _ => True where
  monotone := SignedSum.monotone_saturate
  nothing := rfl
  shorter _ _ _ := trivial
  start column _ := by
    obtain ⟨k, pos⟩ := column
    cases pos <;> rfl
  own _ u map column sum _ _ h := by
    obtain ⟨i, ⟨k, d⟩, past⟩ := u
    simp only [apply, entry, sumOf_add, amount]
    by_cases eq : column.1 = k
    · rw [if_pos eq, if_pos eq.symm, SignedSum.entry_add, if_pos rfl]
      exact (congrArg (fun n => SignedSum.saturate (n + _)) h).trans (SignedSum.saturate_add _ _)
    · rw [if_neg eq, if_neg (Ne.symm eq)]
      exact h
  others i op map column nm ne := by
    simp only [apply, entry, sumOf_add]
    split
    · rw [SignedSum.entry_add, if_neg ne]
    · rfl
  merge := entry_merge

theorem get_eq (k : K) : map.get k = (map.sumOf k).value := by
  unfold get sumOf
  cases map.entries.lookup k <;> rfl

end SignedSumMap

section Converged
variable [Fintype ι]

theorem SignedSum.value_of_entries (inj : Function.Injective names) {sum : SignedSum}
    (quiet : ∀ pos nm, nm ∉ Set.range names → sum.entry pos nm = 0) :
    sum.value = net (saturate (∑ j, sum.entry true (names j))) (saturate (∑ j, sum.entry false (names j))) := by
  rw [value_eq, saturatingSum_eq inj true (quiet true), saturatingSum_eq inj false (quiet false)]

variable [DecidableEq ι]

/-- The saturating sum over the nodes of the saturating total of each. -/
def saturatedTotal {Op : Type} (amount : Op → Nat) (history : List (Update ι Op)) : Nat :=
  SignedSum.saturate (∑ j, SignedSum.saturate (nodeTotal amount j history))

variable (injective : Function.Injective names)
include injective

theorem GCounter.value_complete {ctr : GCounter} {Op : Type} {amt : Op → Nat} {hist : List (Update ι Op)}
    (fits : total amt hist < 2 ^ 63) (quiet : ∀ nm, nm ∉ Set.range names → ctr.content nm = 0)
    (es : ∀ j, ctr.content (names j) = nodeTotal amt j hist) :
    ctr.value = total amt hist := by
  rw [value_eq injective quiet, Finset.sum_congr rfl fun j _ => es j, sum_nodeTotal]
  exact Nat.mod_eq_of_lt (lt_trans fits (by decide))

theorem gcounter_converges {acts : List (ReplicaAction ι Nat)} {net : Replicas ι Nat GCounter}
    (run : Run (Replicas.step (GCounter.apply names) merge) (fun _ _ => True) (.start .new) acts net)
    (fits : total id net.history < 2 ^ 63) :
    (∀ i j, (net.replica i).state.content (names j) ≤ (net.replica j).state.content (names j)) ∧
      ∀ i, net.Complete i → (net.replica i).state.value = total id net.history := by
  refine ⟨GCounter.accumulates.entry_le_own injective run fits (), fun i full => ?_⟩
  exact GCounter.value_complete injective fits (GCounter.accumulates.quiet.run run _ (.inl ⟨i, rfl⟩) ())
    (GCounter.accumulates.entry_complete injective run fits full ())

theorem pncounter_converges {acts : List (ReplicaAction ι PNOp)} {net : Replicas ι PNOp PNCounter}
    (run : Run (Replicas.step (PNCounter.apply names) merge) (fun _ _ => True) (.start .new) acts net)
    (increments : total (PNCounter.amount true) net.history < 2 ^ 63)
    (decrements : total (PNCounter.amount false) net.history < 2 ^ 63) :
    (∀ pos i j, ((net.replica i).state.side pos).content (names j) ≤
        ((net.replica j).state.side pos).content (names j)) ∧
      ∀ i, net.Complete i → (net.replica i).state.value =
        total (PNCounter.amount true) net.history - total (PNCounter.amount false) net.history := by
  have fits := And.intro increments decrements
  refine ⟨fun pos => PNCounter.accumulates.entry_le_own injective run fits pos, fun i full => ?_⟩
  have quiet := PNCounter.accumulates.quiet.run run _ (.inl ⟨i, rfl⟩)
  have es := PNCounter.accumulates.entry_complete injective run fits full
  have inc : (net.replica i).state.inc.value = total (PNCounter.amount true) net.history :=
    GCounter.value_complete injective increments (quiet true) (es true)
  have dec : (net.replica i).state.dec.value = total (PNCounter.amount false) net.history :=
    GCounter.value_complete injective decrements (quiet false) (es false)
  rw [PNCounter.value_eq (inc ▸ increments) (dec ▸ decrements), inc, dec]

theorem signedSum_converges {acts : List (ReplicaAction ι Int)} {net : Replicas ι Int SignedSum}
    (run : Run (Replicas.step (SignedSum.apply names) merge) (fun _ _ => True) (.start .new) acts net) :
    (∀ pos i j, (net.replica i).state.entry pos (names j) ≤
        (net.replica j).state.entry pos (names j)) ∧
      ∀ i, net.Complete i → (net.replica i).state.value =
        SignedSum.net (saturatedTotal (SignedSum.amount true) net.history)
          (saturatedTotal (SignedSum.amount false) net.history) := by
  refine ⟨fun pos => SignedSum.accumulates.entry_le_own injective run trivial pos, fun i full => ?_⟩
  have es := SignedSum.accumulates.entry_complete injective run trivial full
  rw [SignedSum.value_of_entries injective (SignedSum.accumulates.quiet.run run _ (.inl ⟨i, rfl⟩))]
  simp only [es, saturatedTotal]

theorem signedSumMap_converges {K : Type} [DecidableEq K] {acts : List (ReplicaAction ι (K × Int))}
    {net : Replicas ι (K × Int) (SignedSumMap K)}
    (run : Run (Replicas.step (SignedSumMap.apply names) merge) (fun _ _ => True) (.start .new) acts net) :
    (∀ column i j, (net.replica i).state.entry column (names j) ≤ (net.replica j).state.entry column (names j)) ∧
      ∀ i, net.Complete i → ∀ k, (net.replica i).state.get k =
        SignedSum.net (saturatedTotal (SignedSumMap.amount (k, true)) net.history)
          (saturatedTotal (SignedSumMap.amount (k, false)) net.history) := by
  refine ⟨fun column => SignedSumMap.accumulates.entry_le_own injective run trivial column,
    fun i full k => ?_⟩
  have quiet : ∀ pos nm, nm ∉ Set.range names →
      ((net.replica i).state.sumOf k).entry pos nm = 0 :=
    fun pos => SignedSumMap.accumulates.quiet.run run _ (.inl ⟨i, rfl⟩) (k, pos)
  have sides : ∀ pos j, ((net.replica i).state.sumOf k).entry pos (names j) =
      SignedSum.saturate (nodeTotal (SignedSumMap.amount (k, pos)) j net.history) :=
    fun pos => SignedSumMap.accumulates.entry_complete injective run trivial full (k, pos)
  rw [SignedSumMap.get_eq, SignedSum.value_of_entries injective quiet]
  simp only [sides, saturatedTotal]
omit injective

/-- Whatever the interleaving of updates and merges: a node is never behind in its own
accumulators, and replicas that have received every update read the same value. -/
theorem counters_converge (injective : Function.Injective names) :
    (∀ (actions : List (ReplicaAction ι Nat)) (net : Replicas ι Nat GCounter),
      Run (Replicas.step (GCounter.apply names) merge) (fun _ _ => True) (.start .new) actions net →
      total id net.history < 2 ^ 63 →
      (∀ i j, (net.replica i).state.content (names j) ≤ (net.replica j).state.content (names j)) ∧
        ∀ i, net.Complete i → (net.replica i).state.value = total id net.history) ∧
    (∀ (actions : List (ReplicaAction ι PNOp)) (net : Replicas ι PNOp PNCounter),
      Run (Replicas.step (PNCounter.apply names) merge) (fun _ _ => True) (.start .new) actions net →
      total (PNCounter.amount true) net.history < 2 ^ 63 → total (PNCounter.amount false) net.history < 2 ^ 63 →
      (∀ positive i j, ((net.replica i).state.side positive).content (names j) ≤
          ((net.replica j).state.side positive).content (names j)) ∧
        ∀ i, net.Complete i → (net.replica i).state.value =
          total (PNCounter.amount true) net.history - total (PNCounter.amount false) net.history) ∧
    (∀ (actions : List (ReplicaAction ι Int)) (net : Replicas ι Int SignedSum),
      Run (Replicas.step (SignedSum.apply names) merge) (fun _ _ => True) (.start .new) actions net →
      (∀ positive i j, (net.replica i).state.entry positive (names j) ≤
          (net.replica j).state.entry positive (names j)) ∧
        ∀ i, net.Complete i → (net.replica i).state.value =
          SignedSum.net (saturatedTotal (SignedSum.amount true) net.history)
            (saturatedTotal (SignedSum.amount false) net.history)) ∧
    ∀ (K : Type) [DecidableEq K] (actions : List (ReplicaAction ι (K × Int)))
      (net : Replicas ι (K × Int) (SignedSumMap K)),
      Run (Replicas.step (SignedSumMap.apply names) merge) (fun _ _ => True) (.start .new) actions net →
      (∀ column i j, (net.replica i).state.entry column (names j) ≤
          (net.replica j).state.entry column (names j)) ∧
        ∀ i, net.Complete i → ∀ key, (net.replica i).state.get key =
          SignedSum.net (saturatedTotal (SignedSumMap.amount (key, true)) net.history)
            (saturatedTotal (SignedSumMap.amount (key, false)) net.history) :=
  ⟨fun _ _ => gcounter_converges injective, fun _ _ => pncounter_converges injective,
    fun _ _ => signedSum_converges injective, fun _ _ _ _ => signedSumMap_converges injective⟩

end Converged

def nodeNames (node : Bool) : String := if node then "A" else "B"

/-- A updates and publishes, then updates again; B updates, merges the old snapshot twice
and the new one, and is complete. -/
def exchange {Op : Type} (first second third : Op) : List (ReplicaAction Bool Op) :=
  [.update true first, .publish true, .update true second, .update false third, .receive false 0,
    .receive false 0, .publish true, .receive false 1]

theorem counters_converge_two_nodes :
    (∃ net : Replicas Bool Nat GCounter,
      Run (Replicas.step (GCounter.apply nodeNames) merge) (fun _ _ => True) (.start .new) (exchange 5 7 1) net ∧
      (net.replica false).state.value = 13) ∧
    (∃ net : Replicas Bool PNOp PNCounter,
      Run (Replicas.step (PNCounter.apply nodeNames) merge) (fun _ _ => True) (.start .new)
        (exchange (.increment 5) (.decrement 7) (.increment 1)) net ∧
      (net.replica false).state.value = -1) ∧
    (∃ net : Replicas Bool Int SignedSum,
      Run (Replicas.step (SignedSum.apply nodeNames) merge) (fun _ _ => True) (.start .new)
        (exchange 5 (-7) (2 ^ 127 - 1)) net ∧
      (net.replica false).state.value = 2 ^ 127 - 8) ∧
    ∃ net : Replicas Bool (Nat × Int) (SignedSumMap Nat),
      Run (Replicas.step (SignedSumMap.apply nodeNames) merge) (fun _ _ => True) (.start .new)
        (exchange (0, 5) (1, -7) (1, 2)) net ∧
      (net.replica false).state.get 1 = -5 := by
  have inj : Function.Injective nodeNames := by
    rintro (_ | _) (_ | _) eq <;> first | rfl | exact absurd eq (by decide)
  obtain ⟨counter, pncounter, sum, sums⟩ := counters_converge inj
  refine ⟨Run.executed rfl fun run => ?_, Run.executed rfl fun run => ?_, Run.executed rfl fun run => ?_,
    Run.executed rfl fun run => ?_⟩
  · exact ((counter _ _ run (by decide)).2 false (by unfold Replicas.Complete; decide)).trans (by decide)
  · exact ((pncounter _ _ run (by decide) (by decide)).2 false (by unfold Replicas.Complete; decide)).trans
      (by decide)
  · exact ((sum _ _ run).2 false (by unfold Replicas.Complete; decide)).trans (by decide)
  · exact ((sums Nat _ _ run).2 false (by unfold Replicas.Complete; decide) 1).trans (by decide)

end Atomr.DistributedData
