import Atomr.Library.Table

/-! Vector clocks: one counter for each node name, absent counters read as zero. -/

namespace Atomr.Cluster

open Library

structure VectorClock where
  versions : Table String Nat

inductive VectorRelation where
  | before
  | after
  | same
  | concurrent
  deriving DecidableEq, Repr

namespace VectorClock

def new : VectorClock := ⟨∅⟩

variable (clock : VectorClock) (node : String)

def get : Nat := (clock.versions.lookup node).getD 0

def tick : VectorClock := ⟨clock.versions.upsert node fun held => held.getD 0 + 1⟩

def merge (self other : VectorClock) : VectorClock :=
  ⟨self.versions.mergeWith (fun held v => if v > held.getD 0 then v else held.getD 0) other.versions⟩

/-- The loop visits the keys of both clocks and clears a flag at the first entry
that is greater on its side. -/
def compare (self other : VectorClock) : VectorRelation :=
  let keys := self.versions.keys ++ other.versions.keys
  let aLe := keys.all fun k => self.get k ≤ other.get k
  let bLe := keys.all fun k => other.get k ≤ self.get k
  match aLe, bLe with
  | true, true => .same
  | true, false => .before
  | false, true => .after
  | false, false => .concurrent

instance : LE VectorClock := ⟨fun a b => ∀ node, a.get node ≤ b.get node⟩

theorem get_tick (other : String) :
    (clock.tick node).get other = if other = node then clock.get node + 1 else clock.get other := by
  simp only [get, tick, Table.lookup_upsert_if]
  split <;> rfl

theorem get_merge (self other : VectorClock) (n : String) :
    (self.merge other).get n = max (self.get n) (other.get n) := by
  simp only [get, merge, Table.lookup_mergeWith]
  cases other.versions.lookup n with
  | none => simp
  | some v =>
    simp only [Option.getD_some]
    split <;> omega

theorem get_eq_zero_of_not_mem {clock : VectorClock} {n : String} (ha : n ∉ clock.versions.keys) :
    clock.get n = 0 := by
  have none := AList.lookup_eq_none.mpr fun mem => ha (AList.mem_keys.mp mem)
  simp only [get, none, Option.getD_none]

theorem all_keys_iff (self other : VectorClock) (keys : List String)
    (covers : ∀ n, n ∉ keys → self.get n = 0) :
    (keys.all fun k => self.get k ≤ other.get k) = true ↔ self ≤ other := by
  simp only [List.all_eq_true, decide_eq_true_eq]
  constructor
  · intro smaller n
    by_cases mem : n ∈ keys
    · exact smaller n mem
    -- A key that neither loop visits has no entry and reads as zero.
    · rw [covers n mem]
      exact Nat.zero_le _
  · intro smaller n _
    exact smaller n

instance (self other : VectorClock) : Decidable (self ≤ other) :=
  decidable_of_iff _ (all_keys_iff self other self.versions.keys fun _ absent => get_eq_zero_of_not_mem absent)

theorem compare_eq (self other : VectorClock) :
    (self.compare other = .same ↔ self ≤ other ∧ other ≤ self) ∧
    (self.compare other = .before ↔ self ≤ other ∧ ¬ other ≤ self) ∧
    (self.compare other = .after ↔ ¬ self ≤ other ∧ other ≤ self) ∧
    (self.compare other = .concurrent ↔ ¬ self ≤ other ∧ ¬ other ≤ self) := by
  have left := all_keys_iff self other (self.versions.keys ++ other.versions.keys) fun n ha =>
    get_eq_zero_of_not_mem fun mem => ha (List.mem_append_left _ mem)
  have right := all_keys_iff other self (self.versions.keys ++ other.versions.keys) fun n ha =>
    get_eq_zero_of_not_mem fun mem => ha (List.mem_append_right _ mem)
  simp only [compare, ← left, ← right]
  split <;> simp [*]

variable {a b : VectorClock}

theorem not_le_iff : ¬ a ≤ b ↔ ∃ n, b.get n < a.get n := by
  show (¬ ∀ n, a.get n ≤ b.get n) ↔ _
  rw [Classical.not_forall]
  exact exists_congr fun n => not_le

def AtMost (a b : VectorClock) : Prop := a.compare b = .before ∨ a.compare b = .same

theorem atMost_iff : AtMost a b ↔ a ≤ b := by
  obtain ⟨eq, pre, _, _⟩ := compare_eq a b
  rw [AtMost, eq, pre, ← and_or_left]
  exact and_iff_left (Classical.em _).symm

theorem le_merge_left (a b : VectorClock) : a ≤ a.merge b := by
  intro n
  rw [get_merge]
  exact le_max_left _ _

theorem le_merge_right (a b : VectorClock) : b ≤ a.merge b := by
  intro n
  rw [get_merge]
  exact le_max_right _ _

theorem merge_le {c : VectorClock} (left : a ≤ c) (right : b ≤ c) : a.merge b ≤ c := by
  intro n
  rw [get_merge]
  exact Nat.max_le.mpr ⟨left n, right n⟩

theorem compare_tick : clock.compare (clock.tick node) = .before := by
  obtain ⟨_, pre, _, _⟩ := compare_eq clock (clock.tick node)
  refine pre.mpr ⟨fun other => ?_, not_le_iff.mpr ⟨node, ?_⟩⟩
  · rw [get_tick]
    split
    next eq =>
      subst eq
      exact Nat.le_succ _
    · exact le_refl _
  · rw [get_tick, if_pos rfl]
    exact Nat.lt_succ_self _

end VectorClock

def VectorRelation.mirror : VectorRelation → VectorRelation
  | .before => .after
  | .after => .before
  | .same => .same
  | .concurrent => .concurrent

namespace VectorClock

theorem compare_mirror (a b : VectorClock) : b.compare a = (a.compare b).mirror := by
  obtain ⟨same, before, after, concurrent⟩ := compare_eq a b
  obtain ⟨same', before', after', concurrent'⟩ := compare_eq b a
  cases seen : a.compare b with
  | same => exact same'.mpr (same.mp seen).symm
  | before => exact after'.mpr (before.mp seen).symm
  | after => exact before'.mpr (after.mp seen).symm
  | concurrent => exact concurrent'.mpr (concurrent.mp seen).symm

theorem before_trans {a b c : VectorClock} (first : a.compare b = .before) (second : b.compare c = .before) :
    a.compare c = .before := by
  obtain ⟨le, not_ge⟩ := (compare_eq a b).2.1.mp first
  obtain ⟨le', _⟩ := (compare_eq b c).2.1.mp second
  refine (compare_eq a c).2.1.mpr ⟨fun n => le_trans (le n) (le' n), fun back => not_ge fun n => ?_⟩
  exact le_trans (le' n) (back n)

/-- The comparison is the one of all entries, the merge of two clocks is their least upper bound, and a
clock comes before its tick. -/
theorem product_order (a b c : VectorClock) (node : String) :
    (a.compare b = .same ↔ ∀ node, a.get node = b.get node) ∧
    (a.compare b = .before ↔ (∀ node, a.get node ≤ b.get node) ∧ ∃ node, a.get node < b.get node) ∧
    (a.compare b = .after ↔ (∀ node, b.get node ≤ a.get node) ∧ ∃ node, b.get node < a.get node) ∧
    (a.compare b = .concurrent ↔ (∃ node, b.get node < a.get node) ∧ ∃ node, a.get node < b.get node) ∧
    (a.compare b = .before → b.compare c = .before → a.compare c = .before) ∧
    b.compare a = (a.compare b).mirror ∧
    AtMost a (a.merge b) ∧ AtMost b (a.merge b) ∧ (AtMost a c → AtMost b c → AtMost (a.merge b) c) ∧
    a.compare (a.tick node) = .before := by
  obtain ⟨eq, pre, post, concurrent⟩ := compare_eq a b
  refine ⟨eq.trans ?_, pre.trans ?_, post.trans ?_, concurrent.trans ?_, before_trans, compare_mirror a b,
    atMost_iff.mpr (le_merge_left a b), atMost_iff.mpr (le_merge_right a b), ?_, compare_tick a node⟩
  · constructor
    · intro ⟨le, ge⟩ node
      exact le_antisymm (le node) (ge node)
    · intro equal
      exact ⟨fun node => le_of_eq (equal node), fun node => le_of_eq (equal node).symm⟩
  · rw [not_le_iff]
    rfl
  · rw [not_le_iff, and_comm]
    rfl
  · rw [not_le_iff, not_le_iff]
  · intro left right
    exact atMost_iff.mpr (merge_le (atMost_iff.mp left) (atMost_iff.mp right))

end VectorClock

end Atomr.Cluster
