import Atomr.DistributedData.Collections
import Atomr.Library.Numbering

/-! Additions and removals of an observed-remove set on several replicas.

A replica numbers its additions from the highest number it has seen, so replicas that
have not heard of each other use the same tags. A removal then covers an addition it
never observed. The run theorem asks every addition for a tag that no replica holds for
the item yet.
-/

namespace Atomr.DistributedData

open Library Finset

inductive SetOp (T : Type) where
  | add (item : T)
  | remove (item : T)
  deriving DecidableEq

variable {ι T : Type}

namespace OrSet

variable [DecidableEq T]

def apply (_ : ι) : SetOp T → OrSet T → OrSet T
  | .add item, set => set.add item
  | .remove item, set => set.remove item

def added (set : OrSet T) (item : T) : Finset Nat := set.adds.read id item

def removed (set : OrSet T) (item : T) : Finset Nat := set.removes.read id item

theorem added_add (set : OrSet T) (x other : T) :
    (set.add x).added other =
      if other = x then insert (set.counter + 1) (set.added other) else set.added other := by
  unfold added add Table.read
  rw [Table.lookup_upsert_if]
  split
  next eq =>
    subst eq
    cases set.adds.lookup other <;> rfl
  · rfl

theorem removed_remove (set : OrSet T) (x other : T) :
    (set.remove x).removed other =
      if other = x then set.removed other ∪ set.added other else set.removed other := by
  unfold remove
  split
  next ha =>
    have none : set.added x = ∅ := by simp [added, Table.read, ha]
    split
    next eq => rw [eq, none, union_empty]
    · rfl
  next tags found =>
    have seen : set.added x = tags := by simp [added, Table.read, found]
    unfold removed Table.read
    rw [Table.lookup_upsert_if]
    split
    next eq =>
      subst eq
      rw [seen]
      cases set.removes.lookup other <;> rfl
    · rfl

@[simp] theorem removed_add (set : OrSet T) (x : T) : (set.add x).removed = set.removed := rfl

@[simp] theorem added_remove (set : OrSet T) (x : T) : (set.remove x).added = set.added := by
  unfold remove
  split <;> rfl

@[simp] theorem counter_remove (set : OrSet T) (x : T) : (set.remove x).counter = set.counter := by
  unfold remove
  split <;> rfl

theorem added_merge (set other : OrSet T) (x : T) : (merge set other).added x = set.added x ∪ other.added x :=
  congrFun (congrArg Prod.fst (merge_content set other)) x

theorem removed_merge (set other : OrSet T) (x : T) : (merge set other).removed x = set.removed x ∪ other.removed x :=
  congrFun (congrArg (fun content => content.2.1) (merge_content set other)) x

theorem contains_iff (set : OrSet T) (x : T) :
    set.contains x ↔ ∃ tg ∈ set.added x, tg ∉ set.removed x := by
  unfold contains added removed Table.read
  cases set.adds.lookup x with
  | none => simp
  | some tags =>
    cases set.removes.lookup x with
    | none =>
      rw [decide_eq_true_iff]
      simp [Finset.Nonempty]
    | some gone =>
      simp [Finset.Nonempty]

end OrSet

def SetOp.isAdd : SetOp T → Bool
  | .add _ => true
  | .remove _ => false

/-- The tag of an addition: the number after the highest its replica has seen. -/
abbrev tagOf (history : List (Update ι (SetOp T))) : Nat → Nat := numberOf SetOp.isAdd history

abbrev Adds (history : List (Update ι (SetOp T))) (item : T) : Nat → Prop := Made (· = SetOp.add item) history

/-- The update is a removal of the item by a replica that had received the given update. -/
abbrev RemovesObserving (history : List (Update ι (SetOp T))) (item : T) : Nat → Nat → Prop :=
  MadeObserving (· = SetOp.remove item) history

def UniqueTags (history : List (Update ι (SetOp T))) : Prop :=
  ∀ item a b, Adds history item a → Adds history item b → tagOf history a = tagOf history b → a = b

variable {history : List (Update ι (SetOp T))}

theorem UniqueTags.snoc (unique : UniqueTags history) {u : Update ι (SetOp T)}
    (fresh : ∀ x a, u.op = .add x → Adds history x a →
      tagOf history a ≠ nextNumber SetOp.isAdd (numbers SetOp.isAdd history) u) :
    UniqueTags (history ++ [u]) := by
  have bound : ∀ {x a}, Adds history x a → a < history.length :=
    fun ⟨_, found, _⟩ => (List.getElem?_eq_some_iff.mp found).1
  intro x a b first second same
  rcases made_snoc.mp first with old | ⟨rfl, new⟩ <;> rcases made_snoc.mp second with old' | ⟨rfl, new'⟩
  · rw [tagOf, numberOf_snoc (bound old), numberOf_snoc (bound old')] at same
    exact unique x a b old old' same
  · rw [tagOf, numberOf_snoc (bound old), numberOf_snoc_length] at same
    exact absurd same (fresh x a new' old)
  · rw [tagOf, numberOf_snoc (bound old'), numberOf_snoc_length] at same
    exact absurd same.symm (fresh x b new old')
  · rfl

variable [DecidableEq T]

/-- The tables hold the tags of the additions received and of those the removals received
had observed; the counter is the highest of them. -/
structure TagsOf (history : List (Update ι (SetOp T))) (received : Finset Nat) (set : OrSet T) : Prop where
  counter : set.counter = received.sup (tagOf history)
  added : ∀ item, (set.added item : Set Nat) = NumbersMade SetOp.isAdd (· = .add item) history received
  removed : ∀ item, (set.removed item : Set Nat) =
    NumbersSeen SetOp.isAdd (· = .remove item) (· = .add item) history received

variable {recv : Finset Nat} {set : OrSet T}

theorem tagsOf_interprets : Interprets (OrSet.apply : ι → SetOp T → OrSet T → OrSet T) merge OrSet.new TagsOf where
  start := ⟨rfl, by simp [OrSet.added, OrSet.new, Table.read, numbersMade_empty],
    by simp [OrSet.removed, OrSet.new, Table.read, numbersSeen_empty]⟩
  frame hist recv set u closed means := by
    refine ⟨?_, fun x => ?_, fun x => ?_⟩
    · rw [sup_numberOf_snoc closed.bounded, means.counter]
    · rw [numbersMade_snoc closed, means.added]
    · rw [numbersSeen_snoc closed, means.removed]
  update hist recv set i op closed _ _ means := by
    have next (x : T) : nextNumber SetOp.isAdd (numbers SetOp.isAdd hist) ⟨i, .add x, recv⟩ =
        set.counter + 1 := congrArg (· + 1) means.counter.symm
    refine ⟨?_, fun x => ?_, fun x => ?_⟩
    · rw [sup_insert, sup_numberOf_snoc closed.bounded, tagOf, numberOf_snoc_length, ← means.counter]
      cases op with
      | add x =>
        rw [next]
        exact (Nat.max_eq_left (Nat.le_add_right _ 1)).symm
      | remove x => exact (OrSet.counter_remove set x).trans (Nat.zero_max _).symm
    · rw [numbersMade_insert closed, ← means.added]
      cases op with
      | add added =>
        rw [next, OrSet.apply, OrSet.added_add]
        split
        next eq => simp [eq]
        next ne => simp [Ne.symm ne]
      | remove removed => simp [OrSet.apply]
    · rw [numbersSeen_insert closed rfl, ← means.added, ← means.removed]
      cases op with
      | add added => simp [OrSet.apply]
      | remove removed =>
        rw [OrSet.apply, OrSet.removed_remove]
        split
        next eq => ext n; simp [eq, or_comm]
        next ne => simp [Ne.symm ne]
  merge hist recv other set set' _ _ _ means means' := by
    refine ⟨?_, fun x => ?_, fun x => ?_⟩
    · rw [sup_union, ← means.counter, ← means'.counter]
      rfl
    · rw [OrSet.added_merge, coe_union, means.added, means'.added, numbersMade_union]
    · rw [OrSet.removed_merge, coe_union, means.removed, means'.removed, numbersSeen_union]

/-- An addition takes a tag that no replica holds for the item, within the counter's range. -/
def FreshTag (net : Replicas ι (SetOp T) (OrSet T)) : ReplicaAction ι (SetOp T) → Prop
  | .update i (.add item) => (net.replica i).state.counter + 1 < 2 ^ 64 ∧
      ∀ j, (net.replica i).state.counter + 1 ∉ (net.replica j).state.added item
  | _ => True

theorem contains_of_unique (unique : UniqueTags history) (means : TagsOf history recv set) (x : T) :
    set.contains x ↔ ∃ a ∈ recv, Adds history x a ∧
      ∀ r ∈ recv, ¬ RemovesObserving history x r a := by
  have added (tag : Nat) : tag ∈ set.added x ↔ _ := Set.ext_iff.mp (means.added x) tag
  have removed (tag : Nat) : tag ∈ set.removed x ↔ _ := Set.ext_iff.mp (means.removed x) tag
  rw [OrSet.contains_iff]
  constructor
  · rintro ⟨tag, present, kept⟩
    obtain ⟨a, mem, adds, rfl⟩ := (added tag).mp present
    refine ⟨a, mem, adds, fun r there observed => kept ?_⟩
    exact (removed _).mpr ⟨r, there, a, observed, adds, rfl⟩
  · rintro ⟨a, mem, adds, unobserved⟩
    refine ⟨tagOf history a, (added _).mpr ⟨a, mem, adds, rfl⟩, fun covered => ?_⟩
    -- A removal covers the tag only if it observed this very addition.
    obtain ⟨r, there, b, observed, other, same⟩ := (removed _).mp covered
    exact unobserved r there (unique x b a other adds same ▸ observed)

variable [DecidableEq ι] {net : Replicas ι (SetOp T) (OrSet T)} {actions : List (ReplicaAction ι (SetOp T))}

theorem run_uniqueTags (run : Run (Replicas.step OrSet.apply merge) FreshTag (.start .new) actions net) :
    UniqueTags net.history := by
  refine (run.invariant (fun net => (Causal net ∧ Known TagsOf net) ∧ UniqueTags net.history) ?_
    ⟨⟨.start _, tagsOf_interprets.known_start⟩, ?_⟩).2
  · intro net act next ⟨⟨causal, known⟩, unique⟩ allowed taken
    refine ⟨⟨causal.step taken, tagsOf_interprets.known_step causal known (fun _ _ _ => trivial) taken⟩, ?_⟩
    rcases Replicas.step_history taken with eq | ⟨i, op, rfl, grown⟩
    · exact eq ▸ unique
    · refine grown ▸ unique.snoc fun x a new ⟨v, found, old⟩ same => ?_
      cases (new : op = .add x)
      -- The origin of the older addition still holds its tag.
      have held : tagOf net.history a ∈ (net.replica v.origin).state.added x :=
        (Set.ext_iff.mp ((known _ (.inl ⟨v.origin, rfl⟩)).added x) _).mpr
          ⟨a, causal.own v.origin a v found rfl, ⟨v, found, old⟩, rfl⟩
      have next : nextNumber SetOp.isAdd (numbers SetOp.isAdd net.history) ⟨i, .add x, (net.replica i).received⟩ =
          (net.replica i).state.counter + 1 := congrArg (· + 1) (known _ (.inl ⟨i, rfl⟩)).counter.symm
      exact allowed.2 v.origin (next ▸ same ▸ held)
  · intro x a b ⟨_, found, _⟩
    simp [Replicas.start] at found

/-- When every addition takes a fresh tag, a replica that has received everything holds
exactly the items with an addition that no removal observed. -/
theorem contains_iff_unobserved_add
    (run : Run (Replicas.step OrSet.apply merge) FreshTag (.start .new) actions net) {i : ι}
    (complete : net.Complete i) (item : T) :
    (net.replica i).state.contains item ↔
      ∃ a, Adds net.history item a ∧ ∀ r, ¬ RemovesObserving net.history item r a := by
  have means := tagsOf_interprets.run run _ (.inl ⟨i, rfl⟩)
  rw [contains_of_unique (run_uniqueTags run) means]
  have bound : ∀ {id u}, net.history[id]? = some u → id ∈ (net.replica i).received :=
    fun found => complete _ (List.getElem?_eq_some_iff.mp found).1
  constructor
  · rintro ⟨a, -, adds, unobserved⟩
    refine ⟨a, adds, fun r observed => ?_⟩
    obtain ⟨_, found, _⟩ := id observed
    exact unobserved r (bound found) observed
  · rintro ⟨a, adds, unobserved⟩
    obtain ⟨_, found, _⟩ := id adds
    exact ⟨a, bound found, adds, fun r _ => unobserved r⟩

instance [Fintype ι] (net : Replicas ι (SetOp T) (OrSet T)) (action : ReplicaAction ι (SetOp T)) :
    Decidable (FreshTag net action) := by
  unfold FreshTag; split <;> infer_instance

/-- The other replica hears of the addition, adds the item once more, and keeps it
against a removal that did not observe that. -/
theorem contains_iff_unobserved_add_concurrent :
    ∃ net : Replicas Bool (SetOp Nat) (OrSet Nat),
      Run (Replicas.step OrSet.apply merge) FreshTag (.start .new)
        [.update true (.add 7), .publish true, .receive false 0, .update false (.add 7),
          .update true (.remove 7), .publish true, .receive false 1] net ∧
      (∃ a, Adds net.history 7 a ∧ ∀ r, ¬ RemovesObserving net.history 7 r a) ∧
      (net.replica false).state.contains 7 = true := by
  refine Run.executed rfl fun run => ?_
  have kept := contains_iff_unobserved_add run (i := false) (by unfold Replicas.Complete; decide) 7
  exact ⟨kept.mp (by decide), by decide⟩

/-- Two replicas add the item with the same tag; the removal by one of them, which had
not heard of the other, takes both additions away. -/
theorem concurrent_add_lost :
    ∃ net : Replicas Bool (SetOp Nat) (OrSet Nat),
      Run (Replicas.step OrSet.apply merge) (fun _ _ => True) (.start .new)
        [.update true (.add 7), .update false (.add 7), .update false (.remove 7), .publish false,
          .receive true 0] net ∧
      net.Complete true ∧
      (Adds net.history 7 0 ∧ ∀ r, ¬ RemovesObserving net.history 7 r 0) ∧
      (net.replica true).state.contains 7 = false := by
  refine ⟨_, Run.of_foldlM rfl, by unfold Replicas.Complete; decide, ⟨⟨_, rfl, rfl⟩, ?_⟩, by decide⟩
  exact unobserved_iff.mpr (by decide)

end Atomr.DistributedData
