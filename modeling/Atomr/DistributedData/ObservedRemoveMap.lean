import Atomr.DistributedData.LastWriterWins
import Atomr.Library.Numbering

/-! The observed-remove map: old snapshots against local operations, and writes against removals.

A put replaces the value of a key, so a snapshot from before it brings the old value back by a
merge. Tags are numbers of a replica and not names: a removal on one replica hides every tag up
to the one it saw, also that of a write it never heard of.
-/

namespace Atomr.DistributedData

open Library Table

/-- Merging in what a value already contains leaves it as it is. -/
def Absorbs (V : Type) [CrdtMerge V] : Prop := AbsorbLaws (Same (S := V)) merge

theorem LwwRegister.absorbs {T : Type} : Absorbs (LwwRegister T) := by
  have asymm : ∀ a b : LwwRegister T, Later b a → ¬ Later a b := by
    intro a b later earlier
    rw [later_iff] at later earlier
    exact lt_asymm later earlier
  exact AbsorbLaws.of_choice asymm

variable {K V : Type}

theorem LWWMap.absorbs [DecidableEq K] : Absorbs (LWWMap K V) := by
  have choice : AbsorbLaws (fun x y : Nat × V => x = y) fun x y => if x.1 < y.1 then y else x :=
    AbsorbLaws.of_choice fun x y => lt_asymm
  have es : AbsorbLaws _ (merge (S := LWWMap K V)) :=
    (choice.option eq_equivalence).of_reading (fun map => map.entries.lookup) fun a b k => by
      rw [lookup_merge]
      simp only [← not_lt, ite_not]
  have equal : ∀ {x y : Option (Nat × V)}, Option.Rel (fun x y => x = y) x y → x = y := by
    rintro _ _ (eq | _)
    · rw [eq]
    · rfl
  exact ⟨fun a => funext fun k => equal (es.idem a k), fun a b => funext fun k => equal (es.absorb a b k)⟩

theorem ORMap.absorbs [DecidableEq K] [CrdtMerge V] (vals : Absorbs V) : Absorbs (ORMap K V) := by
  have tags : AbsorbLaws (fun a b : Nat => a = b) max := AbsorbLaws.of_content id fun _ _ => rfl
  have pairs : AbsorbLaws (Option.Rel SameEntry) _ := (AbsorbLaws.prod tags vals).option sameEntry_equivalence
  have es := pairs.of_reading (fun map : ORMap K V => map.entries.lookup) merge_entries
  have tombstones : AbsorbLaws _ (merge (S := ORMap K V)) :=
    AbsorbLaws.of_content (fun map => map.tombstones.contents id)
      fun a b => contents_mergeWith GCounter.max_combines a.tombstones b.tombstones
  have ctrs : AbsorbLaws _ (merge (S := ORMap K V)) := AbsorbLaws.of_content ORMap.counter fun _ _ => rfl
  exact es.and (tombstones.and ctrs)

theorem replicated_types_absorb :
    Absorbs GCounter ∧ Absorbs PNCounter ∧ Absorbs SignedSum ∧ Absorbs Flag ∧
    (∀ (T : Type) [DecidableEq T], Absorbs (GSet T) ∧ Absorbs (OrSet T)) ∧
    (∀ (T : Type), Absorbs (LwwRegister T)) ∧
    (∀ (K : Type) [DecidableEq K], Absorbs (PNCounterMap K) ∧ Absorbs (SignedSumMap K)) ∧
    (∀ (K V : Type) [DecidableEq K] [DecidableEq V], Absorbs (ORMultiMap K V)) ∧
    (∀ (K V : Type) [DecidableEq K], Absorbs (LWWMap K V)) ∧
    ∀ (K V : Type) [DecidableEq K] [CrdtMerge V], Absorbs V → Absorbs (ORMap K V) := by
  refine ⟨AbsorbLaws.of_content GCounter.content GCounter.merge_content,
    AbsorbLaws.of_content PNCounter.content PNCounter.merge_content,
    AbsorbLaws.of_content SignedSum.content SignedSum.merge_content,
    AbsorbLaws.of_content Flag.enabled Flag.merge_enabled, ?_, ?_, ?_, ?_, ?_, ?_⟩
  · intro T _
    exact ⟨AbsorbLaws.of_content GSet.items fun _ _ => rfl, AbsorbLaws.of_content OrSet.content OrSet.merge_content⟩
  · intro T
    exact LwwRegister.absorbs
  · intro K _
    exact ⟨AbsorbLaws.of_content PNCounterMap.content fun a b =>
        mergeEntries_contents PNCounter.new_content PNCounter.merge_content a.entries b.entries,
      AbsorbLaws.of_content SignedSumMap.content fun a b =>
        mergeEntries_contents SignedSum.new_content SignedSum.merge_content a.entries b.entries⟩
  · intro K V _ _
    exact AbsorbLaws.of_content ORMultiMap.content fun a b =>
      mergeEntries_contents OrSet.new_content OrSet.merge_content a.entries b.entries
  · intro K V _
    exact LWWMap.absorbs
  · intro K V _ _ vals
    exact ORMap.absorbs vals

inductive MapOp (K V : Type) where
  | put (key : K) (value : V)
  | update (key : K) (value : V)
  | remove (key : K)

namespace MapOp

variable {K V : Type}

def isWrite : MapOp K V → Bool
  | .put _ _ | .update _ _ => true
  | .remove _ => false

def Writes (key : K) : MapOp K V → Prop
  | .put k _ | .update k _ => k = key
  | .remove _ => False

def Removes (key : K) : MapOp K V → Prop
  | .put _ _ | .update _ _ => False
  | .remove k => k = key

instance [DecidableEq K] (key : K) (op : MapOp K V) : Decidable (Removes key op) := by
  cases op <;> unfold Removes <;> infer_instance

end MapOp

open MapOp

variable {ι K V : Type} [DecidableEq K]

namespace ORMap

def tagAt (map : ORMap K V) (key : K) : Option Nat := (map.entries.lookup key).map Prod.fst

theorem lookup_put (map : ORMap K V) (k other : K) (v : V) :
    (map.put other v).entries.lookup k =
      if k = other then some (map.counter + 1, v) else map.entries.lookup k :=
  lookup_insert_if ..

theorem tagAt_put (map : ORMap K V) (k other : K) (v : V) :
    (map.put other v).tagAt k = if k = other then some (map.counter + 1) else map.tagAt k := by
  rw [tagAt, lookup_put]
  split <;> rfl

@[simp] theorem entries_remove (map : ORMap K V) (k : K) : (map.remove k).entries = map.entries := by
  unfold remove
  split <;> rfl

@[simp] theorem counter_remove (map : ORMap K V) (k : K) : (map.remove k).counter = map.counter := by
  unfold remove
  split <;> rfl

@[simp] theorem tagAt_remove (map : ORMap K V) (k other : K) : (map.remove other).tagAt k = map.tagAt k := by
  rw [tagAt, entries_remove, tagAt]

theorem tombstones_remove (map : ORMap K V) (k other : K) :
    (map.remove other).tombstones.lookup k =
      if k = other ∧ (map.tagAt k).isSome then map.tagAt k else map.tombstones.lookup k := by
  unfold remove
  split
  next ha =>
    by_cases eq : k = other
    · subst eq
      simp [tagAt, ha]
    · simp [eq]
  next tg v found =>
    by_cases eq : k = other
    · subst eq
      simp [tagAt, found]
    · simp [eq]

def Hides (tomb : Option Nat) (tag : Nat) : Prop := ∃ t ∈ tomb, tag ≤ t

instance (tomb : Option Nat) (tag : Nat) : Decidable (Hides tomb tag) :=
  decidable_of_iff (tomb.any fun t => tag ≤ t) (by cases tomb <;> simp [Hides])

variable {tg : Nat} {tomb : Option Nat} {written : V}

theorem not_hides_iff : ¬ Hides tomb tg ↔ ∀ t ∈ tomb, t < tg := by
  simp only [Hides, not_exists, not_and, not_le]

theorem hides_max {a b : Nat} : Hides tomb (max a b) ↔ Hides tomb a ∧ Hides tomb b := by
  cases tomb <;> simp [Hides]

variable {key : K} {map changed : ORMap K V}

theorem get_of_lookup {v : V} (found : map.entries.lookup key = some (tg, v)) :
    map.get key = if Hides (map.tombstones.lookup key) tg then none else some v := by
  unfold get
  rw [found]
  cases map.tombstones.lookup key with
  | none => simp [Hides]
  | some tomb => simp [Hides]

theorem get_of_absent (ha : map.entries.lookup key = none) : map.get key = none := by
  unfold get
  rw [ha]

theorem present_iff (map : ORMap K V) (k : K) :
    (map.get k).isSome ↔ ∃ tg ∈ map.tagAt k, ∀ t ∈ map.tombstones.lookup k, t < tg := by
  cases found : map.entries.lookup k with
  | none => simp [get_of_absent found, tagAt, found]
  | some e =>
    obtain ⟨tg, v⟩ := e
    have own : map.tagAt k = some tg := by rw [tagAt, found, Option.map_some]
    simp only [get_of_lookup found, own, ← not_hides_iff]
    by_cases hidden : Hides (map.tombstones.lookup k) tg <;> simp [hidden]

variable [CrdtMerge V]

def perform : MapOp K V → ORMap K V → ORMap K V
  | .put key value, map => map.put key value
  | .update key value, map => map.update key value
  | .remove key, map => map.remove key

theorem lookup_update (map : ORMap K V) (k other : K) (v : V) :
    (map.update other v).entries.lookup k =
      if k = other then
        some (map.counter + 1, ((map.entries.lookup k).map fun h => merge h.2 v).getD v)
      else map.entries.lookup k := by
  rw [update, lookup_upsert_if]
  split
  next eq =>
    subst eq
    cases map.entries.lookup k <;> rfl
  · rfl

theorem tagAt_update (map : ORMap K V) (k other : K) (v : V) :
    (map.update other v).tagAt k = if k = other then some (map.counter + 1) else map.tagAt k := by
  rw [tagAt, lookup_update]
  split <;> rfl

theorem tagAt_merge (a b : ORMap K V) (k : K) :
    (merge a b).tagAt k = (a.tagAt k).merge max (b.tagAt k) := by
  rw [tagAt, merge_entries, tagAt, tagAt]
  rcases a.entries.lookup k with _ | x <;> rcases b.entries.lookup k with _ | y <;> rfl

theorem tombstones_merge (a b : ORMap K V) (k : K) :
    (merge a b).tombstones.lookup k = (a.tombstones.lookup k).merge max (b.tombstones.lookup k) := by
  change (a.tombstones.mergeWith (fun h tg => max (h.getD 0) tg) b.tombstones).lookup k = _
  rw [lookup_mergeWith]
  rcases a.tombstones.lookup k with _ | h <;> rcases b.tombstones.lookup k with _ | other <;> simp

def ReadsAs (a b : ORMap K V) : Prop := ∀ key, Option.Rel Same (a.get key) (b.get key)

theorem merge_max_self (tomb : Option Nat) : tomb.merge max tomb = tomb := by
  cases tomb <;> simp

theorem reads_untouched (absorbs : Absorbs V) (es : changed.entries.lookup key = map.entries.lookup key)
    (tombs : changed.tombstones.lookup key = map.tombstones.lookup key) :
    Option.Rel Same ((merge changed map).get key) (changed.get key) := by
  have merged := merge_entries changed map key
  have hidden := tombstones_merge changed map key
  rw [tombs, merge_max_self] at hidden
  rw [es] at merged
  cases found : map.entries.lookup key with
  | none =>
    rw [found] at merged es
    rw [get_of_absent merged, get_of_absent es]
    exact .none
  | some e =>
    obtain ⟨tg, v⟩ := e
    rw [found] at merged es
    rw [get_of_lookup merged, get_of_lookup es, hidden, tombs, max_self]
    split
    · exact .none
    · exact .some (absorbs.idem v)

/-- The written value contains the one it replaces. Where an older tombstone hides the new tag
already, the old tag has to be hidden as well. -/
def Contains (map : ORMap K V) (key : K) (written : V) : Prop :=
  ∀ entry ∈ map.entries.lookup key,
    if Hides (map.tombstones.lookup key) (map.counter + 1) then Hides (map.tombstones.lookup key) entry.1
    else Same (merge written entry.2) written

/-- What a merge with the state before a write does to the key that was written. -/
theorem reads_written_iff (es : changed.entries.lookup key = some (map.counter + 1, written))
    (tombs : changed.tombstones = map.tombstones) :
    Option.Rel Same ((merge changed map).get key) (changed.get key) ↔ map.Contains key written := by
  have merged := merge_entries changed map key
  have hidden := tombstones_merge changed map key
  rw [tombs, merge_max_self] at hidden
  rw [es] at merged
  rw [get_of_lookup es, tombs]
  unfold Contains
  cases found : map.entries.lookup key with
  | none =>
    rw [found] at merged
    rw [get_of_lookup merged, hidden]
    exact iff_of_true ((optionRel_equivalence same_equivalence).refl _) (fun _ ha => by cases ha)
  | some old =>
    rw [found] at merged
    rw [get_of_lookup merged, hidden]
    simp only [hides_max]
    by_cases new : Hides (map.tombstones.lookup key) (map.counter + 1)
    · by_cases pre : Hides (map.tombstones.lookup key) old.1 <;> simp [new, pre]
    · simp [new]

/-- Whether an operation survives the merge with the state before it. -/
def Covers (map : ORMap K V) : MapOp K V → Prop
  | .put key value => map.Contains key value
  | .update key value =>
    map.Contains key (((map.entries.lookup key).map fun held => merge held.2 value).getD value)
  | .remove _ => True

theorem reads_removed (absorbs : Absorbs V) (map : ORMap K V) (k : K) :
    ReadsAs (merge (map.remove k) map) (map.remove k) := by
  intro other
  have tombs := tombstones_remove map other k
  by_cases touched : other = k ∧ (map.tagAt other).isSome
  · -- The entry is hidden by its own tag, and stays hidden by a larger one.
    obtain ⟨e, found⟩ : ∃ e, map.entries.lookup other = some e := by
      simpa [tagAt, Option.isSome_iff_exists] using touched.2
    obtain ⟨tg, v⟩ := e
    have own : map.tagAt other = some tg := by rw [tagAt, found, Option.map_some]
    rw [if_pos touched, own] at tombs
    have es : (map.remove k).entries.lookup other = some (tg, v) := by rw [entries_remove, found]
    have merged := merge_entries (map.remove k) map other
    rw [es, found] at merged
    have hidden : Hides ((merge (map.remove k) map).tombstones.lookup other) (max tg tg) := by
      rw [tombstones_merge, tombs, max_self]
      cases map.tombstones.lookup other with
      | none => exact ⟨tg, rfl, le_refl _⟩
      | some tomb => exact ⟨max tg tomb, rfl, le_max_left _ _⟩
    rw [get_of_lookup merged, get_of_lookup es, if_pos hidden, tombs, if_pos ⟨tg, rfl, le_refl _⟩]
    exact .none
  · rw [if_neg touched] at tombs
    exact reads_untouched absorbs (by rw [entries_remove]) tombs

theorem reads_changed_iff (absorbs : Absorbs V) (tombs : changed.tombstones = map.tombstones)
    (es : ∀ other, changed.entries.lookup other =
      if other = key then some (map.counter + 1, written) else map.entries.lookup other) :
    ReadsAs (merge changed map) changed ↔ map.Contains key written := by
  have here := reads_written_iff ((es key).trans (if_pos rfl)) tombs
  constructor
  · intro reads
    exact here.mp (reads key)
  · intro contained other
    by_cases eq : other = key
    · subst eq
      exact here.mpr contained
    · exact reads_untouched absorbs ((es other).trans (if_neg eq)) (by rw [tombs])

/-- Gossip from before an operation is without effect exactly when the operation covers what it replaces. -/
theorem reads_performed_iff (absorbs : Absorbs V) (map : ORMap K V) (op : MapOp K V) :
    ReadsAs (merge (perform op map) map) (perform op map) ↔ Covers map op := by
  cases op with
  | put k v => exact reads_changed_iff absorbs rfl fun other => lookup_put map other k v
  | update k v =>
    refine reads_changed_iff absorbs rfl fun other => ?_
    rw [perform, lookup_update]
    split
    next eq => rw [eq]
    · rfl
  | remove k => exact iff_of_true (reads_removed absorbs map k) trivial

end ORMap

/-- The tag of a key is the highest number of a write received, its tombstone the highest that a
removal received had observed. -/
structure MapTags (history : List (Update ι (MapOp K V))) (received : Finset Nat) (map : ORMap K V) : Prop where
  counter : map.counter = received.sup (numberOf isWrite history)
  tags : ∀ key, IsTop (NumbersMade isWrite (Writes key) history received) (map.tagAt key)
  tombs : ∀ key, IsTop (NumbersSeen isWrite (Removes key) (Writes key) history received) (map.tombstones.lookup key)

section Meaning
variable {hist : List (Update ι (MapOp K V))} {recv : Finset Nat} {map : ORMap K V}

theorem MapTags.write (closed : Closed hist recv) (means : MapTags hist recv map) {changed : ORMap K V}
    {k : K} {u : Update ι (MapOp K V)} (past : u.past = recv) (isWrite : u.op.isWrite)
    (writes : ∀ other, u.op.Writes other ↔ other = k) (removes : ∀ other, ¬ u.op.Removes other)
    (ctr : changed.counter = map.counter + 1) (tombs : changed.tombstones = map.tombstones)
    (tags : ∀ other, changed.tagAt other = if other = k then some (map.counter + 1) else map.tagAt other) :
    MapTags (hist ++ [u]) (insert hist.length recv) changed := by
  have next : nextNumber MapOp.isWrite (numbers MapOp.isWrite hist) u = map.counter + 1 := by
    rw [nextNumber, if_pos isWrite, past, means.counter]
    rfl
  refine ⟨?_, fun other => ?_, fun other => ?_⟩
  · rw [Finset.sup_insert, sup_numberOf_snoc closed.bounded, numberOf_snoc_length, next, ← means.counter, ctr]
    exact (max_eq_left (Nat.le_add_right _ 1)).symm
  · rw [numbersMade_insert closed, next, tags]
    simp only [writes]
    split
    next eq =>
      have below : ∀ n ∈ NumbersMade MapOp.isWrite (Writes other) hist recv, n ≤ map.counter + 1 :=
        fun n mem => Nat.le_succ_of_le (means.counter ▸ numbersMade_le mem)
      convert IsTop.insert_above below using 1
      simp [eq]
    next ne =>
      convert means.tags other using 1
      simp [ne]
  · rw [numbersSeen_insert closed past, tombs]
    convert means.tombs other using 1
    simp [removes]

theorem MapTags.remove (closed : Closed hist recv) (means : MapTags hist recv map) (i : ι) (k : K) :
    MapTags (hist ++ [⟨i, .remove k, recv⟩]) (insert hist.length recv) (map.remove k) := by
  refine ⟨?_, fun other => ?_, fun other => ?_⟩
  · rw [Finset.sup_insert, sup_numberOf_snoc closed.bounded, numberOf_snoc_length, ← means.counter]
    exact (ORMap.counter_remove map k).trans (zero_max _).symm
  · rw [numbersMade_insert closed, ORMap.tagAt_remove]
    convert means.tags other using 1
    simp [Writes]
  · rw [numbersSeen_insert closed rfl, ORMap.tombstones_remove]
    by_cases eq : other = k
    · subst eq
      -- Whatever was observed before has been received, so the tag held is above every tombstone.
      have obs : NumbersSeen isWrite (Removes other) (Writes other) hist recv ⊆ _ := numbersSeen_subset closed
      have all : {n | Removes other (.remove other : MapOp K V) ∧ n ∈ NumbersMade isWrite (Writes other) hist recv} ∪
          NumbersSeen isWrite (Removes other) (Writes other) hist recv =
          NumbersMade isWrite (Writes other) hist recv := by
        ext n
        exact ⟨fun mem => mem.elim And.right fun seen => obs seen, fun mem => .inl ⟨rfl, mem⟩⟩
      rw [all]
      cases h : map.tagAt other with
      | some tg => simpa [h] using means.tags other
      | none =>
        have none : NumbersMade isWrite (Writes other) hist recv = ∅ := (h ▸ means.tags other).eq_empty
        have unseen : NumbersSeen isWrite (Removes other) (Writes other) hist recv = ∅ :=
          Set.subset_empty_iff.mp (obs.trans none.subset)
        rw [none, ← unseen]
        simpa using means.tombs other
    · convert means.tombs other using 1
      · simp [Removes, Ne.symm eq]
      · simp [eq]

end Meaning

variable [CrdtMerge V]

theorem mapTags_interprets :
    Interprets (fun _ : ι => (ORMap.perform : MapOp K V → ORMap K V → ORMap K V)) merge ORMap.new MapTags where
  start := by
    refine ⟨rfl, fun k => ?_, fun k => ?_⟩
    · rw [numbersMade_empty]
      exact IsTop.empty
    · rw [numbersSeen_empty]
      exact IsTop.empty
  frame hist recv map u closed means := by
    refine ⟨?_, fun k => ?_, fun k => ?_⟩
    · rw [sup_numberOf_snoc closed.bounded, means.counter]
    · rw [numbersMade_snoc closed]
      exact means.tags k
    · rw [numbersSeen_snoc closed]
      exact means.tombs k
  update hist recv map i op closed _ _ means := by
    cases op with
    | put k v =>
      exact means.write closed rfl rfl (fun other => eq_comm) (fun _ removes => removes) rfl rfl
        fun other => ORMap.tagAt_put map other k v
    | update k v =>
      exact means.write closed rfl rfl (fun other => eq_comm) (fun _ removes => removes) rfl rfl
        fun other => ORMap.tagAt_update map other k v
    | remove k => exact means.remove closed i k
  merge hist recv other map map' _ _ _ means means' := by
    refine ⟨?_, fun k => ?_, fun k => ?_⟩
    · rw [Finset.sup_union, ← means.counter, ← means'.counter]
      rfl
    · rw [numbersMade_union, ORMap.tagAt_merge]
      exact (means.tags k).merge (means'.tags k)
    · rw [numbersSeen_union, ORMap.tombstones_merge]
      exact (means.tombs k).merge (means'.tombs k)

abbrev MapNet (ι K V : Type) := Replicas ι (MapOp K V) (ORMap K V)

namespace MapNet

def step [DecidableEq ι] : MapNet ι K V → ReplicaAction ι (MapOp K V) → Option (MapNet ι K V) :=
  Replicas.step (fun _ => ORMap.perform) merge

/-- Numbers stay in the range of the counter. -/
def CounterFits (net : MapNet ι K V) : ReplicaAction ι (MapOp K V) → Prop
  | .update i op => op.isWrite → (net.replica i).state.counter + 1 < 2 ^ 64
  | .publish _ | .receive _ _ => True

/-- Some write of the key has a higher number than every write of it that a removal of the key observed. -/
def OutnumbersRemoved (net : MapNet ι K V) (key : K) : Prop :=
  ∃ w, Made (Writes key) net.history w ∧ ∀ r seen, MadeObserving (Removes key) net.history r seen →
    Made (Writes key) net.history seen → numberOf isWrite net.history seen < numberOf isWrite net.history w

variable [DecidableEq ι] {net : MapNet ι K V} {acts : List (ReplicaAction ι (MapOp K V))}
  {guard : MapNet ι K V → ReplicaAction ι (MapOp K V) → Prop} {h : Replica (ORMap K V)}

theorem mapTags (run : Run step guard (.start .new) acts net) (known : net.Holds h) :
    MapTags net.history h.received h.state :=
  mapTags_interprets.run run h known

/-- Whether a replica that has received everything holds a key depends on numbers alone. -/
theorem present_iff (run : Run step guard (.start .new) acts net) {i : ι} (full : net.Complete i) (k : K) :
    ((net.replica i).state.get k).isSome ↔ net.OutnumbersRemoved k := by
  have means := mapTags run (.inl ⟨i, rfl⟩)
  have recv : ∀ {id u}, net.history[id]? = some u → id ∈ (net.replica i).received :=
    fun found => full _ (List.getElem?_eq_some_iff.mp found).1
  rw [ORMap.present_iff, (means.tags k).exists_above_iff (means.tombs k)]
  constructor
  · rintro ⟨_, ⟨w, -, made, rfl⟩, above⟩
    refine ⟨w, made, fun r seen obs write => ?_⟩
    obtain ⟨_, found, _⟩ := id obs
    exact above _ ⟨r, recv found, seen, obs, write, rfl⟩
  · rintro ⟨w, made, above⟩
    obtain ⟨_, found, _⟩ := id made
    refine ⟨_, ⟨w, recv found, made, rfl⟩, ?_⟩
    rintro _ ⟨r, -, seen, obs, write, rfl⟩
    exact above r seen obs write

instance (net : MapNet ι K V) (action : ReplicaAction ι (MapOp K V)) : Decidable (net.CounterFits action) := by
  cases action <;> unfold CounterFits <;> infer_instance

end MapNet

/-- Gossip from before an operation changes nothing a reader sees exactly when the operation covers
what it replaces. A write that no removal observed keeps its key at a replica with all updates
exactly when the numbers of the writes say so. -/
theorem map_updates_survive (absorbs : Absorbs V) :
    (∀ (map : ORMap K V) (op : MapOp K V), map.counter + 1 < 2 ^ 64 →
      (ORMap.ReadsAs (merge (ORMap.perform op map) map) (ORMap.perform op map) ↔ map.Covers op)) ∧
    ∀ (ι : Type) [DecidableEq ι] (actions : List (ReplicaAction ι (MapOp K V))) (net : MapNet ι K V),
      Run MapNet.step MapNet.CounterFits (.start .new) actions net → ∀ i, net.Complete i →
      ∀ key p, Made (Writes key) net.history p → (∀ r, ¬ MadeObserving (Removes key) net.history r p) →
        (((net.replica i).state.get key).isSome ↔ net.OutnumbersRemoved key) :=
  ⟨fun map op _ => ORMap.reads_performed_iff absorbs map op,
    fun _ _ _ _ run _ full key _ _ _ => MapNet.present_iff run full key⟩

def switchedOn : List (ReplicaAction Bool (MapOp Nat Flag)) :=
  [.update true (.put 7 ⟨false⟩), .publish true, .receive false 0, .update false (.update 7 ⟨true⟩),
    .update true (.remove 7), .publish true, .receive false 1]

theorem map_updates_survive_switched :
    (∃ net : MapNet Bool Nat Flag, Run MapNet.step MapNet.CounterFits (.start .new) switchedOn net ∧
      net.Complete false ∧ net.OutnumbersRemoved 7) ∧
    ORMap.ReadsAs (merge ((ORMap.new.put 7 ⟨false⟩).put 7 (⟨true⟩ : Flag)) (ORMap.new.put 7 ⟨false⟩))
      ((ORMap.new.put 7 ⟨false⟩).put 7 ⟨true⟩) := by
  obtain ⟨single, runs⟩ := map_updates_survive (K := Nat) replicated_types_absorb.2.2.2.1
  obtain ⟨net, run, full, present, made, unobserved⟩ : ∃ net : MapNet Bool Nat Flag,
      Run MapNet.step MapNet.CounterFits (.start .new) switchedOn net ∧ net.Complete false ∧
      ((net.replica false).state.get 7).isSome ∧ Made (Writes 7) net.history 1 ∧
      ∀ r, ¬ MadeObserving (Removes 7) net.history r 1 := by
    refine ⟨_, Run.of_foldlM rfl, ?_, by decide, ⟨_, rfl, by exact rfl⟩, ?_⟩
    · unfold Replicas.Complete
      decide
    · exact unobserved_iff.mpr (by decide)
  refine ⟨⟨net, run, full, (runs Bool _ net run false full 7 1 made unobserved).mp present⟩, ?_⟩
  refine (single (ORMap.new.put 7 ⟨false⟩) (.put 7 ⟨true⟩) (by decide)).mpr fun entry found => ?_
  rfl

/-- Switching a flag of the map off is undone by a snapshot from before. Two replicas write a key with
the same number; the removal by one of them, which had not heard of the other, hides both writes. -/
theorem map_updates_undone :
    (∃ map : ORMap Nat Flag, (ORMap.perform (.put 7 ⟨false⟩) map).get 7 = some ⟨false⟩ ∧
      (merge (ORMap.perform (.put 7 ⟨false⟩) map) map).get 7 = some ⟨true⟩) ∧
    ∃ net : MapNet Bool Nat Flag,
      Run MapNet.step MapNet.CounterFits (.start .new)
        [.update true (.put 7 ⟨true⟩), .update false (.put 7 ⟨true⟩), .update false (.remove 7), .publish false,
          .receive true 0] net ∧
      net.Complete true ∧ Made (Writes 7) net.history 0 ∧
      (∀ r, ¬ MadeObserving (Removes 7) net.history r 0) ∧ (net.replica true).state.get 7 = none := by
  refine ⟨⟨ORMap.new.put 7 ⟨true⟩, by decide, by decide⟩, _, Run.of_foldlM rfl, ?_, ⟨_, rfl, by exact rfl⟩, ?_, by decide⟩
  · unfold Replicas.Complete
    decide
  · exact unobserved_iff.mpr (by decide)

end Atomr.DistributedData
