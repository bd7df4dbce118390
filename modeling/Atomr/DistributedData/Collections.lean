import Atomr.DistributedData.Counters

/-! Replicated sets and maps. Element and key types are generic; a hash set of
the source is a finite set, a hash map a table. -/

namespace Atomr.DistributedData

open Library Table

structure GSet (T : Type) where
  items : Finset T

namespace GSet

variable {T : Type} [DecidableEq T]

def new : GSet T := ⟨∅⟩

def add (set : GSet T) (item : T) : GSet T := ⟨insert item set.items⟩

def contains (set : GSet T) (item : T) : Bool := item ∈ set.items

-- Inserting the items of `other` one by one, in any order, leaves their union.
instance : CrdtMerge (GSet T) where
  merge self other := ⟨self.items ∪ other.items⟩
  state := contentSetoid GSet.items

theorem lawful : Lawful (GSet T) := JoinLaws.of_content GSet.items fun _ _ => rfl

end GSet

/-- Each addition gets a tag; a removal keeps the tags it has seen as tombstones. -/
structure OrSet (T : Type) where
  adds : Table T (Finset Nat)
  removes : Table T (Finset Nat)
  counter : Nat

namespace OrSet

variable {T : Type} [DecidableEq T]

def new : OrSet T := ⟨∅, ∅, 0⟩

-- The tag counts the additions of this replica, so two replicas may issue the same one.
variable (set : OrSet T)

def add (item : T) : OrSet T where
  adds := set.adds.upsert item fun held => insert (set.counter + 1) (held.getD ∅)
  removes := set.removes
  counter := set.counter + 1

def remove (item : T) : OrSet T :=
  match set.adds.lookup item with
  | none => set
  | some tags => { set with removes := set.removes.upsert item fun held => held.getD ∅ ∪ tags }

def contains (item : T) : Bool :=
  match set.adds.lookup item, set.removes.lookup item with
  | some added, some removed => (added \ removed).Nonempty
  | some added, none => added.Nonempty
  | _, _ => false

def content : (T → Finset Nat) × (T → Finset Nat) × Nat := (set.adds.read id, set.removes.read id, set.counter)

instance : CrdtMerge (OrSet T) where
  merge self other := {
    adds := self.adds.mergeWith (fun held tags => held.getD ∅ ∪ tags) other.adds
    removes := self.removes.mergeWith (fun held tags => held.getD ∅ ∪ tags) other.removes
    counter := max self.counter other.counter }
  state := contentSetoid content

theorem union_combines : CombinesAsJoin (id : Finset Nat → Finset Nat) fun h tags => h.getD ∅ ∪ tags where
  absent tags := bot_sup_eq tags
  present _ _ := rfl

theorem merge_content (a b : OrSet T) : (merge a b).content = a.content ⊔ b.content :=
  Prod.ext (read_mergeWith union_combines a.adds b.adds)
    (Prod.ext (read_mergeWith union_combines a.removes b.removes) rfl)

theorem new_content : (new : OrSet T).content = ⊥ := rfl

theorem lawful : Lawful (OrSet T) := JoinLaws.of_content content merge_content

end OrSet

/-! ## Maps of replicated values

Three maps of the source have the same merge: visit the entries of the other
map and merge each into the held value, or into a default one when the key is
absent. -/

section MergeEntries
variable {K V L : Type} [DecidableEq K] [CrdtMerge V] [SemilatticeSup L] [OrderBot L]

/-- `entries.entry(k).or_default().merge(v)` for every entry of `other`. -/
def mergeEntries (default : V) (self other : Table K V) : Table K V :=
  self.mergeWith (fun held value => merge (held.getD default) value) other

theorem mergeEntries_contents {content : V → L} {default : V} (start : content default = ⊥)
    (joins : ∀ a b, content (merge a b) = content a ⊔ content b) (self other : Table K V) :
    (mergeEntries default self other).contents content = self.contents content ⊔ other.contents content := by
  apply contents_mergeWith
  constructor
  · intro v
    rw [Option.getD_none, joins, start, bot_sup_eq]
  · intro h v
    exact joins h v

end MergeEntries

structure PNCounterMap (K : Type) where
  entries : Table K PNCounter

namespace PNCounterMap

variable {K : Type} [DecidableEq K]

def new : PNCounterMap K := ⟨∅⟩

def increment (map : PNCounterMap K) (key : K) (node : String) (delta : Nat) : PNCounterMap K :=
  ⟨map.entries.upsert key fun held => (held.getD .new).increment node delta⟩

def decrement (map : PNCounterMap K) (key : K) (node : String) (delta : Nat) : PNCounterMap K :=
  ⟨map.entries.upsert key fun held => (held.getD .new).decrement node delta⟩

def value (map : PNCounterMap K) (key : K) : Int := ((map.entries.lookup key).map PNCounter.value).getD 0

def content (map : PNCounterMap K) : K → WithBot ((String → Nat) × (String → Nat)) :=
  map.entries.contents PNCounter.content

instance : CrdtMerge (PNCounterMap K) where
  merge self other := ⟨mergeEntries .new self.entries other.entries⟩
  state := contentSetoid content

theorem lawful : Lawful (PNCounterMap K) :=
  JoinLaws.of_content content fun a b =>
    mergeEntries_contents PNCounter.new_content PNCounter.merge_content a.entries b.entries

end PNCounterMap

structure ORMultiMap (K V : Type) where
  entries : Table K (OrSet V)

namespace ORMultiMap

variable {K V : Type} [DecidableEq K] [DecidableEq V]

def new : ORMultiMap K V := ⟨∅⟩

def add (map : ORMultiMap K V) (key : K) (value : V) : ORMultiMap K V :=
  ⟨map.entries.upsert key fun held => (held.getD .new).add value⟩

def remove (map : ORMultiMap K V) (key : K) (value : V) : ORMultiMap K V :=
  ⟨map.entries.adjust key fun set => set.remove value⟩

def contains (map : ORMultiMap K V) (key : K) (value : V) : Bool :=
  ((map.entries.lookup key).map fun set => set.contains value).getD false

def content (map : ORMultiMap K V) : K → WithBot ((V → Finset Nat) × (V → Finset Nat) × Nat) :=
  map.entries.contents OrSet.content

instance : CrdtMerge (ORMultiMap K V) where
  merge self other := ⟨mergeEntries .new self.entries other.entries⟩
  state := contentSetoid content

theorem lawful : Lawful (ORMultiMap K V) :=
  JoinLaws.of_content content fun a b =>
    mergeEntries_contents OrSet.new_content OrSet.merge_content a.entries b.entries

end ORMultiMap

structure SignedSumMap (K : Type) where
  entries : Table K SignedSum

namespace SignedSumMap

variable {K : Type} [DecidableEq K]

def new : SignedSumMap K := ⟨∅⟩

def add (map : SignedSumMap K) (key : K) (node : String) (delta : Int) : SignedSumMap K :=
  ⟨map.entries.upsert key fun held => (held.getD .new).add node delta⟩

def get (map : SignedSumMap K) (key : K) : Int := ((map.entries.lookup key).map SignedSum.value).getD 0

def content (map : SignedSumMap K) : K → WithBot ((String → Nat) × (String → Nat)) :=
  map.entries.contents SignedSum.content

instance : CrdtMerge (SignedSumMap K) where
  merge self other := ⟨mergeEntries .new self.entries other.entries⟩
  state := contentSetoid content

theorem lawful : Lawful (SignedSumMap K) :=
  JoinLaws.of_content content fun a b =>
    mergeEntries_contents SignedSum.new_content SignedSum.merge_content a.entries b.entries

end SignedSumMap

/-- An entry carries the tag of its last write; a tombstone hides tags up to its own. -/
structure ORMap (K V : Type) where
  entries : Table K (Nat × V)
  tombstones : Table K Nat
  counter : Nat

namespace ORMap

variable {K V : Type} [DecidableEq K] [CrdtMerge V]

def new : ORMap K V := ⟨∅, ∅, 0⟩

variable (map : ORMap K V)

def put (key : K) (value : V) : ORMap K V :=
  { map with entries := map.entries.insert key (map.counter + 1, value), counter := map.counter + 1 }

def update (key : K) (value : V) : ORMap K V :=
  { map with
    entries := map.entries.upsert key fun
      | some (_, existing) => (map.counter + 1, merge existing value)
      | none => (map.counter + 1, value)
    counter := map.counter + 1 }

def remove (key : K) : ORMap K V :=
  match map.entries.lookup key with
  | none => map
  | some (tag, _) => { map with tombstones := map.tombstones.insert key tag }

def get (key : K) : Option V :=
  match map.entries.lookup key with
  | none => none
  | some (addTag, value) =>
    match map.tombstones.lookup key with
    | some tomb => if tomb ≥ addTag then none else some value
    | none => some value

def mergeEntry (held : Option (Nat × V)) (other : Nat × V) : Nat × V :=
  match held with
  | some (tag, existing) => (max tag other.1, merge existing other.2)
  | none => other

def SameEntry (x y : Nat × V) : Prop := x.1 = y.1 ∧ Same x.2 y.2

theorem sameEntry_equivalence : Equivalence (SameEntry (V := V)) where
  refl x := ⟨rfl, same_equivalence.refl x.2⟩
  symm related := ⟨related.1.symm, same_equivalence.symm related.2⟩
  trans first second := ⟨first.1.trans second.1, same_equivalence.trans first.2 second.2⟩

def SameState (a b : ORMap K V) : Prop :=
  (∀ key, Option.Rel SameEntry (a.entries.lookup key) (b.entries.lookup key)) ∧
  a.tombstones.contents id = b.tombstones.contents id ∧ a.counter = b.counter

theorem sameState_equivalence : Equivalence (SameState (K := K) (V := V)) := by
  have es := optionRel_equivalence (sameEntry_equivalence (V := V))
  constructor
  · intro a
    exact ⟨fun k => es.refl _, rfl, rfl⟩
  · intro a b related
    exact ⟨fun k => es.symm (related.1 k), related.2.1.symm, related.2.2.symm⟩
  · intro a b c first second
    exact ⟨fun k => es.trans (first.1 k) (second.1 k),
      first.2.1.trans second.2.1, first.2.2.trans second.2.2⟩

instance : CrdtMerge (ORMap K V) where
  merge self other := {
    entries := self.entries.mergeWith mergeEntry other.entries
    tombstones := self.tombstones.mergeWith (fun held tag => max (held.getD 0) tag) other.tombstones
    counter := max self.counter other.counter }
  state := ⟨SameState, sameState_equivalence⟩

theorem merge_entries (a b : ORMap K V) (k : K) :
    (merge a b).entries.lookup k =
      (a.entries.lookup k).merge (fun x y => (max x.1 y.1, merge x.2 y.2)) (b.entries.lookup k) := by
  change (a.entries.mergeWith mergeEntry b.entries).lookup k = _
  rw [lookup_mergeWith]
  rcases a.entries.lookup k with _ | h <;> rcases b.entries.lookup k with _ | other <;> rfl

theorem lawful (vals : Lawful V) : Lawful (ORMap K V) := by
  have tags : JoinLaws (fun a b : Nat => a = b) max := JoinLaws.of_content id fun _ _ => rfl
  have pairs : JoinLaws (Option.Rel SameEntry) _ := (JoinLaws.prod tags vals).option sameEntry_equivalence
  have es := pairs.of_reading (fun map : ORMap K V => map.entries.lookup) merge_entries
  have tombstones : JoinLaws _ (merge (S := ORMap K V)) :=
    JoinLaws.of_content (fun map => map.tombstones.contents id)
      fun a b => contents_mergeWith GCounter.max_combines a.tombstones b.tombstones
  have ctrs : JoinLaws _ (merge (S := ORMap K V)) := JoinLaws.of_content ORMap.counter fun _ _ => rfl
  exact es.and (tombstones.and ctrs)

end ORMap

structure LWWMap (K V : Type) where
  entries : Table K (Nat × V)

namespace LWWMap

variable {K V : Type} [DecidableEq K]

def new : LWWMap K V := ⟨∅⟩

/-- The write with the larger timestamp stays; on a tie the held one does. -/
def newer (held : Option (Nat × V)) (written : Nat × V) : Nat × V :=
  match held with
  | some (timestamp, value) => if timestamp ≥ written.1 then (timestamp, value) else written
  | none => written

def put (map : LWWMap K V) (key : K) (value : V) (timestamp : Nat) : LWWMap K V :=
  ⟨map.entries.upsert key fun held => newer held (timestamp, value)⟩

def get (map : LWWMap K V) (key : K) : Option V := (map.entries.lookup key).map Prod.snd

instance : CrdtMerge (LWWMap K V) where
  merge self other := ⟨self.entries.mergeWith newer other.entries⟩
  state := contentSetoid fun map => map.entries.lookup

end LWWMap

/-- Every state of these types, not only one an update sequence builds, obeys
the contract of the trait, the accumulators of a signed sum being magnitudes, never
negative; the observed-remove map passes it on from its values. -/
theorem state_merges_lawful :
    Lawful GCounter ∧ Lawful PNCounter ∧ Lawful SignedSum ∧ Lawful Flag ∧
    (∀ (T : Type) [DecidableEq T], Lawful (GSet T) ∧ Lawful (OrSet T)) ∧
    (∀ (K : Type) [DecidableEq K], Lawful (PNCounterMap K) ∧ Lawful (SignedSumMap K)) ∧
    (∀ (K V : Type) [DecidableEq K] [DecidableEq V], Lawful (ORMultiMap K V)) ∧
    ∀ (K V : Type) [DecidableEq K] [CrdtMerge V], Lawful V → Lawful (ORMap K V) := by
  refine ⟨GCounter.lawful, PNCounter.lawful, SignedSum.lawful, Flag.lawful, ?_, ?_, ?_, ?_⟩
  · intro T _
    exact ⟨GSet.lawful, OrSet.lawful⟩
  · intro K _
    exact ⟨PNCounterMap.lawful, SignedSumMap.lawful⟩
  · intro K V _ _
    exact ORMultiMap.lawful
  · intro K V _ _ vals
    exact ORMap.lawful vals

theorem nested_map_lawful : Lawful (ORMap String (ORMap Nat GCounter)) := by
  obtain ⟨counters, _, _, _, _, _, _, maps⟩ := state_merges_lawful
  exact maps String (ORMap Nat GCounter) (maps Nat GCounter counters)

end Atomr.DistributedData
