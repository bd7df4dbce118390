import Atomr.Library.Table
import Mathlib.Order.BoundedOrder.Lattice
import Mathlib.Order.WithBot

/-! Merge operations that are joins up to an equality of contents.

A replicated value is compared by what it means to its readers, not by its
representation. The laws are obtained either from a map into a semilattice
that turns the merge into the supremum, or pointwise from the parts of a value.
-/

namespace Atomr.Library

open Table

/-- The laws of a join-semilattice, with results compared by `same`. -/
structure JoinLaws {S : Type} (same : S → S → Prop) (merge : S → S → S) : Prop where
  comm : ∀ a b, same (merge a b) (merge b a)
  assoc : ∀ a b c, same (merge (merge a b) c) (merge a (merge b c))
  idem : ∀ a, same (merge a a) a

namespace JoinLaws

variable {S : Type} {mg : S → S → S}

/-- A merge that computes the supremum of contents satisfies the laws. -/
theorem of_content {L : Type} [SemilatticeSup L] (content : S → L)
    (joins : ∀ a b, content (mg a b) = content a ⊔ content b) :
    JoinLaws (fun a b => content a = content b) mg where
  comm a b := by rw [joins, joins, sup_comm]
  assoc a b c := by rw [joins, joins, joins, joins, sup_assoc]
  idem a := by rw [joins, sup_idem]

/-- A merge that acts on every reading by itself inherits the laws of the readings. -/
theorem of_reading {I O : Type} {eq : O → O → Prop} {join : O → O → O} (laws : JoinLaws eq join)
    (read : S → I → O) (joins : ∀ a b i, read (mg a b) i = join (read a i) (read b i)) :
    JoinLaws (fun a b => ∀ i, eq (read a i) (read b i)) mg where
  comm a b i := by
    rw [joins, joins]
    exact laws.comm _ _
  assoc a b c i := by
    rw [joins, joins, joins, joins]
    exact laws.assoc _ _ _
  idem a i := by
    rw [joins]
    exact laws.idem _

variable {left : S → S → Prop}

theorem and {right : S → S → Prop} (first : JoinLaws left mg) (second : JoinLaws right mg) :
    JoinLaws (fun a b => left a b ∧ right a b) mg where
  comm a b := ⟨first.comm a b, second.comm a b⟩
  assoc a b c := ⟨first.assoc a b c, second.assoc a b c⟩
  idem a := ⟨first.idem a, second.idem a⟩

theorem prod {T : Type} {right : T → T → Prop} {join : T → T → T} (first : JoinLaws left mg)
    (second : JoinLaws right join) :
    JoinLaws (fun a b : S × T => left a.1 b.1 ∧ right a.2 b.2) fun a b => (mg a.1 b.1, join a.2 b.2) where
  comm a b := ⟨first.comm a.1 b.1, second.comm a.2 b.2⟩
  assoc a b c := ⟨first.assoc a.1 b.1 c.1, second.assoc a.2 b.2 c.2⟩
  idem a := ⟨first.idem a.1, second.idem a.2⟩

end JoinLaws

/-- Merging in what a value already contains changes nothing. Unlike the laws of a join this
holds of a merge that keeps its own side on a tie. -/
structure AbsorbLaws {S : Type} (same : S → S → Prop) (merge : S → S → S) : Prop where
  idem : ∀ a, same (merge a a) a
  absorb : ∀ a b, same (merge (merge a b) a) (merge a b)

namespace AbsorbLaws

variable {S : Type} {merge : S → S → S}

theorem of_content {L : Type} [SemilatticeSup L] (content : S → L)
    (joins : ∀ a b, content (merge a b) = content a ⊔ content b) :
    AbsorbLaws (fun a b => content a = content b) merge where
  idem a := by rw [joins, sup_idem]
  absorb a b := by rw [joins, joins, sup_comm, ← sup_assoc, sup_idem]

theorem of_choice {newer : S → S → Prop} [DecidableRel newer] (asymm : ∀ a b, newer a b → ¬ newer b a) :
    AbsorbLaws (fun a b => a = b) fun a b => if newer a b then b else a where
  idem a := ite_self a
  absorb a b := by
    by_cases later : newer a b
    · simp [later, asymm a b later]
    · simp [later]

theorem of_reading {I O : Type} {eq : O → O → Prop} {join : O → O → O} (laws : AbsorbLaws eq join)
    (read : S → I → O) (joins : ∀ a b i, read (merge a b) i = join (read a i) (read b i)) :
    AbsorbLaws (fun a b => ∀ i, eq (read a i) (read b i)) merge where
  idem a i := by
    rw [joins]
    exact laws.idem _
  absorb a b i := by
    rw [joins, joins]
    exact laws.absorb _ _

variable {left : S → S → Prop}

theorem and {right : S → S → Prop} (first : AbsorbLaws left merge) (second : AbsorbLaws right merge) :
    AbsorbLaws (fun a b => left a b ∧ right a b) merge where
  idem a := ⟨first.idem a, second.idem a⟩
  absorb a b := ⟨first.absorb a b, second.absorb a b⟩

theorem prod {T : Type} {right : T → T → Prop} {join : T → T → T} (first : AbsorbLaws left merge)
    (second : AbsorbLaws right join) :
    AbsorbLaws (fun a b : S × T => left a.1 b.1 ∧ right a.2 b.2) fun a b => (merge a.1 b.1, join a.2 b.2) where
  idem a := ⟨first.idem a.1, second.idem a.2⟩
  absorb a b := ⟨first.absorb a.1 b.1, second.absorb a.2 b.2⟩

end AbsorbLaws

section Optional
variable {V : Type} {eq : V → V → Prop}

theorem optionRel_equivalence (equiv : Equivalence eq) : Equivalence (Option.Rel eq) where
  refl v := by
    cases v with
    | none => exact .none
    | some v => exact .some (equiv.refl v)
  symm related := by
    cases related with
    | none => exact .none
    | some related => exact .some (equiv.symm related)
  trans left right := by
    cases left with
    | none => exact right
    | some left =>
      cases right with
      | some right => exact .some (equiv.trans left right)

variable {merge : V → V → V}

/-- The laws pass to optional values, an absent one being replaced by the other.
The merge need not be a congruence: each law of optional values uses the law of
the values once or not at all. -/
theorem JoinLaws.option (equiv : Equivalence eq) (laws : JoinLaws eq merge) :
    JoinLaws (Option.Rel eq) (Option.merge merge) where
  comm a b := by
    rcases a with _ | a <;> rcases b with _ | b
    · exact .none
    · exact .some (equiv.refl b)
    · exact .some (equiv.refl a)
    · exact .some (laws.comm a b)
  assoc a b c := by
    have refl := (optionRel_equivalence equiv).refl
    rcases a with _ | a <;> rcases b with _ | b <;> rcases c with _ | c
    case some.some.some => exact .some (laws.assoc a b c)
    all_goals exact refl _
  idem a := by
    rcases a with _ | a
    · exact .none
    · exact .some (laws.idem a)

theorem AbsorbLaws.option (equiv : Equivalence eq) (laws : AbsorbLaws eq merge) :
    AbsorbLaws (Option.Rel eq) (Option.merge merge) where
  idem a := by
    rcases a with _ | a
    · exact .none
    · exact .some (laws.idem a)
  absorb a b := by
    rcases a with _ | a <;> rcases b with _ | b
    · exact .none
    · exact .some (equiv.refl b)
    · exact .some (laws.idem a)
    · exact .some (laws.absorb a b)

end Optional

section Tables
variable {K V L : Type} [DecidableEq K] [SemilatticeSup L] {content : V → L} {combine : Option V → V → V}

/-- The combination step of a table merge, seen through the content of a value:
an absent entry contributes nothing. -/
structure CombinesAsJoin (content : V → L) (combine : Option V → V → V) : Prop where
  absent : ∀ value, content (combine none value) = content value
  present : ∀ held value, content (combine (some held) value) = content held ⊔ content value

/-- The contents of a table by key, an absent entry lying below every present one. -/
def Table.contents (content : V → L) (table : Table K V) (key : K) : WithBot L :=
  Option.map content (table.lookup key)

theorem contents_mergeWith (combines : CombinesAsJoin content combine) (t other : Table K V) :
    (t.mergeWith combine other).contents content = t.contents content ⊔ other.contents content := by
  funext k
  simp only [Table.contents, Pi.sup_apply, lookup_mergeWith]
  cases other.lookup k with
  | none => exact (sup_bot_eq _).symm
  | some v =>
    cases t.lookup k with
    | none => exact congrArg WithBot.some (combines.absent v)
    | some h => exact congrArg WithBot.some (combines.present h v)

variable [OrderBot L]

/-- The contents of a table by key, an absent entry being read as the least content. -/
def Table.read (content : V → L) (table : Table K V) (key : K) : L := ((table.lookup key).map content).getD ⊥

theorem read_mergeWith (combines : CombinesAsJoin content combine) (t other : Table K V) :
    (t.mergeWith combine other).read content = t.read content ⊔ other.read content := by
  funext k
  simp only [Table.read, Pi.sup_apply, lookup_mergeWith]
  cases other.lookup k with
  | none => simp
  | some v =>
    cases t.lookup k with
    | none => simp [combines.absent]
    | some h => simp [combines.present]

end Tables

end Atomr.Library
