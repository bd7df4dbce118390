import Atomr.Cluster.Membership
import Atomr.Library.OrderBy

/-! The age of members.

Members are compared by the number under which they came up, then by protocol, host and port of the
address. The system is not compared, so two members of different systems can tie.
-/

namespace Atomr.Cluster

open Atomr.Core Library

namespace Member

def ageOrdering (a b : Member) : Ordering :=
  (compare a.upNumber b.upNumber).then <|
    ((compare a.address.protocol b.address.protocol).then (compare a.address.host b.address.host)).then
      (compare a.address.port b.address.port)

def oldest (members : List Member) : Option Member := minBy ageOrdering members

instance : Std.TransCmp ageOrdering :=
  inferInstanceAs (Std.TransCmp (compareLex (compareOn Member.upNumber)
    (compareLex (compareLex (compareOn fun m : Member => m.address.protocol) (compareOn fun m => m.address.host))
      (compareOn fun m => m.address.port))))

theorem ageOrdering_eq_iff (a b : Member) :
    ageOrdering a b = .eq ↔ a.upNumber = b.upNumber ∧ a.address.protocol = b.address.protocol ∧
      a.address.host = b.address.host ∧ a.address.port = b.address.port := by
  simp only [ageOrdering, Ordering.then_eq_eq, Std.LawfulEqOrd.compare_eq_iff_eq, and_assoc]

/-- Two oldest members whose addresses differ in the system only. -/
def TiedOldest (members : List Member) : Prop :=
  ∃ m ∈ members, ∃ m' ∈ members, Least ageOrdering members m ∧ m.address.system ≠ m'.address.system ∧
    m.upNumber = m'.upNumber ∧ m.address.protocol = m'.address.protocol ∧
    m.address.host = m'.address.host ∧ m.address.port = m'.address.port

theorem eq_of_least {ms : List Member} (nodup : Keyed.Distinct address ms) (single : ¬ TiedOldest ms)
    {m m' : Member} (mem : m ∈ ms) (member' : m' ∈ ms) (least : Least ageOrdering ms m)
    (least' : Least ageOrdering ms m') : m = m' := by
  have tie : ageOrdering m m' = .eq := Std.OrientedCmp.isLE_antisymm (least m' member') (least' m mem)
  obtain ⟨num, protocol, ho, port⟩ := (ageOrdering_eq_iff m m').mp tie
  have sys : m.address.system = m'.address.system := by
    by_contra ne
    exact single ⟨m, mem, m', member', least, ne, num, protocol, ho, port⟩
  have eq : m.address = m'.address := by
    cases here : m.address
    simp_all
  exact List.inj_on_of_nodup_map nodup mem member' eq

/-- The oldest member is the same for every order of the list exactly if no two oldest ones tie; and two
members tie if they differ in nothing but the system, the status and the roles. -/
theorem oldest_perm_iff {members : List Member} (distinct : Keyed.Distinct address members) :
    ((∀ other : List Member, other.Perm members → oldest other = oldest members) ↔ ¬ TiedOldest members) ∧
    ∀ a b : Member, ageOrdering a b = .eq ↔ a.upNumber = b.upNumber ∧ a.address.protocol = b.address.protocol ∧
      a.address.host = b.address.host ∧ a.address.port = b.address.port := by
  refine ⟨(minBy_perm_iff members).trans ⟨fun unique => ?_, fun single m mem m' member' least least' => ?_⟩,
    ageOrdering_eq_iff⟩
  · rintro ⟨m, mem, m', member', least, ne, eq⟩
    have tie : ageOrdering m' m = .eq := Std.OrientedCmp.eq_symm ((ageOrdering_eq_iff m m').mpr eq)
    have least' : Least ageOrdering members m' := fun other held =>
      Std.TransCmp.isLE_trans (by rw [tie]; rfl) (least other held)
    exact ne (congrArg (·.address.system) (unique m mem m' member' least least'))
  · exact eq_of_least distinct single mem member' least least'

theorem oldest_perm_two :
    let members : List Member := [⟨.localTo "a", 1, .up, []⟩, ⟨.localTo "b", 2, .up, []⟩]
    Keyed.Distinct address members ∧ oldest members.reverse = oldest members := by
  intro members
  have nodup : Keyed.Distinct address members := by simp [Keyed.Distinct, members, Address.localTo]
  refine ⟨nodup, (oldest_perm_iff nodup).1.mpr ?_ _ (List.reverse_perm _)⟩
  have nums : ∀ m ∈ members, ∀ m' ∈ members, m.upNumber = m'.upNumber → m = m' := by decide
  rintro ⟨m, mem, m', member', _, ne, num, _⟩
  exact ne (congrArg (·.address.system) (nums m mem m' member' num))

/-- Two systems on one node: whoever comes first in the list is the oldest. -/
theorem oldest_depends_on_order :
    let a : Member := .new (.remote "akka.tcp" "A" "host" 2552) []
    let b : Member := .new (.remote "akka.tcp" "B" "host" 2552) []
    a.address ≠ b.address ∧ ageOrdering a b = .eq ∧ [b, a].Perm [a, b] ∧
      oldest [a, b] = some a ∧ oldest [b, a] = some b ∧ a ≠ b := by
  refine ⟨?_, ?_, .swap .., ?_, ?_, ?_⟩ <;> decide +kernel

end Member

end Atomr.Cluster
