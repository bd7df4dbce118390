import Atomr.Cluster.Membership
import Atomr.Library.OrderBy
import Mathlib.Algebra.BigOperators.Group.List.Basic
import Mathlib.Data.UInt

/-! Split-brain resolvers and the runtime that consults one.

A strategy sees the members it can reach and those it cannot. The safety result
puts one strategy on each side of a partition, with the two lists exchanged.
-/

namespace Atomr.Cluster

open Library List

inductive DowningDecision where
  | downUnreachable
  | downAll
  | downSelf
  | stay
  deriving DecidableEq, Repr

abbrev DowningStrategy := (reachable unreachable : List Member) → DowningDecision

def isUp (m : Member) : Bool := m.status = .up

namespace KeepMajorityStrategy

def decide : DowningStrategy := fun r u =>
  let rn := r.countP isUp
  let un := u.countP isUp
  if rn > un then .downUnreachable
  else if rn < un then .downSelf
  -- A tie downs both sides.
  else .downAll

end KeepMajorityStrategy

structure StaticQuorumStrategy where
  quorumSize : Nat

def StaticQuorumStrategy.decide (strategy : StaticQuorumStrategy) : DowningStrategy := fun r _ =>
  if r.length ≥ strategy.quorumSize then .downUnreachable else .downSelf

structure KeepOldestStrategy where
  downIfAlone : Bool

namespace KeepOldestStrategy

def oldest (ms : List Member) : Option Member := minBy (compareOn Member.upNumber) ms

def decide (strategy : KeepOldestStrategy) : DowningStrategy := fun r u =>
  match oldest r, oldest u with
  | some ro, some uo =>
    if ro.upNumber ≤ uo.upNumber then
      if r.length = 1 ∧ strategy.downIfAlone then .downAll else .downUnreachable
    else .downSelf
  | some _, none => .downUnreachable
  | none, some _ => .downSelf
  | none, none => .stay

end KeepOldestStrategy

structure KeepReferee where
  referee : String
  downAllIfLessThan : Nat

namespace KeepReferee

def isReferee (strategy : KeepReferee) (m : Member) : Bool := m.address.display = strategy.referee

def decide (strategy : KeepReferee) : DowningStrategy := fun r _ =>
  if !r.any strategy.isReferee then .downSelf
  else if r.length < strategy.downAllIfLessThan then .downAll
  else .downUnreachable

end KeepReferee

structure LeaseMajorityStrategy where
  leaseAcquired : Bool

def LeaseMajorityStrategy.decide (strategy : LeaseMajorityStrategy) : DowningStrategy := fun r u =>
  match KeepMajorityStrategy.decide r u with
  | .downAll => if strategy.leaseAcquired then .downUnreachable else .downAll
  | other => other

/-- Role weights and their sums are 32-bit. -/
structure RoleWeightedQuorum where
  weights : Table String UInt32
  minQuorumWeight : UInt32

namespace RoleWeightedQuorum

variable (strategy : RoleWeightedQuorum)

def memberWeight (m : Member) : UInt32 := (m.roles.filterMap strategy.weights.lookup).max?.getD 0

def decide : DowningStrategy := fun r _ =>
  let reachableWeight := ((r.filter isUp).map strategy.memberWeight).sum
  if reachableWeight ≥ strategy.minQuorumWeight then .downUnreachable else .downSelf

def totalWeight (members : List Member) : Nat :=
  ((members.filter isUp).map fun m => (strategy.memberWeight m).toNat).sum

end RoleWeightedQuorum

/-- Both sides of a partition decide to down the other one. -/
def BothSurvive (left right : DowningStrategy) (a b : List Member) : Prop :=
  left a b = .downUnreachable ∧ right b a = .downUnreachable

variable {r u : List Member}

theorem keepMajority_survives :
    KeepMajorityStrategy.decide r u = .downUnreachable ↔ u.countP isUp < r.countP isUp := by
  simp only [KeepMajorityStrategy.decide]
  split
  · simp_all
  · split <;> simp_all

theorem staticQuorum_survives {strat : StaticQuorumStrategy} :
    strat.decide r u = .downUnreachable ↔ strat.quorumSize ≤ r.length := by
  simp [StaticQuorumStrategy.decide]

theorem KeepReferee.survives {strat : KeepReferee} (survives : strat.decide r u = .downUnreachable) :
    0 < r.countP strat.isReferee := by
  simp only [KeepReferee.decide] at survives
  split at survives
  · cases survives
  · simp_all [countP_pos_iff]

theorem toNat_sum (weights : List UInt32) : weights.sum.toNat = (weights.map UInt32.toNat).sum % 2 ^ 32 := by
  induction weights with
  | nil => rfl
  | cons first rest ih => simp [ih]

theorem RoleWeightedQuorum.survives {strat : RoleWeightedQuorum} (fits : strat.totalWeight r < 2 ^ 32) :
    strat.decide r u = .downUnreachable ↔ strat.minQuorumWeight.toNat ≤ strat.totalWeight r := by
  -- The 32-bit sum of the code is the exact one, since that fits.
  have exact : ((r.filter isUp).map strat.memberWeight).sum.toNat = strat.totalWeight r := by
    rw [toNat_sum, map_map]
    exact Nat.mod_eq_of_lt fits
  simp [RoleWeightedQuorum.decide, UInt32.le_iff_toNat_le, exact]

theorem RoleWeightedQuorum.totalWeight_append (strat : RoleWeightedQuorum) (a b : List Member) :
    strat.totalWeight (a ++ b) = strat.totalWeight a + strat.totalWeight b := by
  simp [totalWeight]

theorem RoleWeightedQuorum.totalWeight_perm (strat : RoleWeightedQuorum) {a b : List Member}
    (eq : a.Perm b) : strat.totalWeight a = strat.totalWeight b :=
  ((eq.filter isUp).map _).sum_eq

theorem leaseMajority_survives {strat : LeaseMajorityStrategy} (survives : strat.decide r u = .downUnreachable) :
    u.countP isUp < r.countP isUp ∨ (u.countP isUp = r.countP isUp ∧ strat.leaseAcquired) := by
  simp only [LeaseMajorityStrategy.decide, KeepMajorityStrategy.decide] at survives
  split at survives
  -- The lease is consulted after a tie only.
  next tie =>
    split at tie
    · cases tie
    · split at tie
      · cases tie
      · right
        constructor
        · omega
        · simpa using survives
  · exact .inl (keepMajority_survives.mp survives)

/-- Of the two sides of any partition at most one decides to down the other. -/
theorem at_most_one_side_survives {members a b : List Member} (partition : (a ++ b).Perm members) :
    ¬ BothSurvive KeepMajorityStrategy.decide KeepMajorityStrategy.decide a b ∧
    (∀ left right : LeaseMajorityStrategy, ¬ (left.leaseAcquired ∧ right.leaseAcquired) →
      ¬ BothSurvive left.decide right.decide a b) ∧
    (∀ strategy : KeepReferee, members.countP strategy.isReferee ≤ 1 →
      ¬ BothSurvive strategy.decide strategy.decide a b) ∧
    (∀ strategy : StaticQuorumStrategy, members.length < 2 * strategy.quorumSize →
      ¬ BothSurvive strategy.decide strategy.decide a b) ∧
    (∀ strategy : RoleWeightedQuorum, strategy.totalWeight members < 2 * strategy.minQuorumWeight.toNat →
      strategy.totalWeight members < 2 ^ 32 → ¬ BothSurvive strategy.decide strategy.decide a b) := by
  refine ⟨?_, ?_, ?_, ?_, ?_⟩
  · rintro ⟨left, right⟩
    rw [keepMajority_survives] at left right
    omega
  · rintro left right lease ⟨first, second⟩
    have onLeft := leaseMajority_survives first
    have onRight := leaseMajority_survives second
    -- Neither count can be the larger on both sides, so both sides hold the lease.
    apply lease
    constructor
    · rcases onLeft with larger | ⟨_, acquired⟩
      · rcases onRight with larger' | ⟨tie, _⟩ <;> omega
      · exact acquired
    · rcases onRight with larger | ⟨_, acquired⟩
      · rcases onLeft with larger' | ⟨tie, _⟩ <;> omega
      · exact acquired
  · rintro strategy unique ⟨first, second⟩
    have onLeft := strategy.survives first
    have onRight := strategy.survives second
    rw [← partition.countP_eq, countP_append] at unique
    omega
  · rintro strategy large ⟨first, second⟩
    rw [staticQuorum_survives] at first second
    rw [← partition.length_eq, length_append] at large
    omega
  · rintro strategy heavy fits ⟨first, second⟩
    rw [← strategy.totalWeight_perm partition, strategy.totalWeight_append] at heavy fits
    rw [strategy.survives (by omega)] at first second
    omega

def upMember (system : String) : Member := { Member.new (.localTo system) ["core"] with status := .up }

/-- Two members on one side, one on the other. -/
theorem at_most_one_side_survives_three :
    ¬ BothSurvive KeepMajorityStrategy.decide KeepMajorityStrategy.decide
        [upMember "a", upMember "b"] [upMember "c"] ∧
    ¬ BothSurvive (LeaseMajorityStrategy.mk true).decide (LeaseMajorityStrategy.mk false).decide
        [upMember "a", upMember "b"] [upMember "c"] ∧
    ¬ BothSurvive (KeepReferee.mk "akka://a" 0).decide (KeepReferee.mk "akka://a" 0).decide
        [upMember "a", upMember "b"] [upMember "c"] ∧
    ¬ BothSurvive (StaticQuorumStrategy.mk 2).decide (StaticQuorumStrategy.mk 2).decide
        [upMember "a", upMember "b"] [upMember "c"] ∧
    ¬ BothSurvive (RoleWeightedQuorum.mk (AList.singleton "core" 1) 2).decide
        (RoleWeightedQuorum.mk (AList.singleton "core" 1) 2).decide [upMember "a", upMember "b"] [upMember "c"] := by
  obtain ⟨majority, lease, referee, quorum, weight⟩ :=
    at_most_one_side_survives (List.Perm.refl ([upMember "a", upMember "b"] ++ [upMember "c"]))
  exact ⟨majority, lease _ _ (by decide), referee _ (by decide), quorum _ (by decide),
    weight _ (by decide) (by decide)⟩

theorem KeepOldestStrategy.oldest_least {ms : List Member} {m : Member} (found : oldest ms = some m) :
    m ∈ ms ∧ ∀ other ∈ ms, m.upNumber ≤ other.upNumber := by
  obtain ⟨mem, least⟩ := minBy_least found
  refine ⟨mem, fun other h => ?_⟩
  exact Int.isLE_compare.mp (least other h)

theorem KeepOldestStrategy.survives {strat : KeepOldestStrategy} :
    strat.decide r u = .downUnreachable ↔
      (∃ m ∈ r, ∀ m' ∈ u, m.upNumber ≤ m'.upNumber) ∧ (u ≠ [] → ¬ (r.length = 1 ∧ strat.downIfAlone)) := by
  unfold decide
  cases here : oldest r with
  | none =>
    have empty : r = [] := minBy_eq_none.mp here
    cases oldest u <;> simp [empty]
  | some ro =>
    obtain ⟨mem, first⟩ := oldest_least here
    cases there : oldest u with
    | none =>
      have empty : u = [] := minBy_eq_none.mp there
      simp only [empty, true_iff]
      exact ⟨⟨ro, mem, fun _ ha => (by cases ha)⟩, fun some => absurd rfl some⟩
    | some uo =>
      obtain ⟨member', first'⟩ := oldest_least there
      have older : (∃ m ∈ r, ∀ m' ∈ u, m.upNumber ≤ m'.upNumber) ↔ ro.upNumber ≤ uo.upNumber := by
        constructor
        · intro ⟨m, h, least⟩
          exact (first m h).trans (least uo member')
        · intro le
          exact ⟨ro, mem, fun m' h => le.trans (first' m' h)⟩
      have hp : u ≠ [] := ne_nil_of_mem member'
      rw [older]
      by_cases le : ro.upNumber ≤ uo.upNumber
      · by_cases alone : r.length = 1 ∧ strat.downIfAlone <;> simp [le, hp]
      · simp [le]

/-- Each side holds one of the members with the lowest number. -/
def OldestOnBoth (members a b : List Member) : Prop :=
  ∃ m ∈ a, ∃ m' ∈ b, m.upNumber = m'.upNumber ∧ ∀ other ∈ members, m.upNumber ≤ other.upNumber

/-- Both sides survive exactly if both hold an oldest member and neither downs all for being alone. -/
theorem keepOldest_one_side_iff (strategy : KeepOldestStrategy) {members a b : List Member}
    (partition : (a ++ b).Perm members) :
    ¬ BothSurvive strategy.decide strategy.decide a b ↔
      ¬ OldestOnBoth members a b ∨ strategy.downIfAlone ∧ (a.length = 1 ∨ b.length = 1) := by
  have held : ∀ {m}, m ∈ members ↔ m ∈ a ∨ m ∈ b := by
    intro m
    rw [← partition.mem_iff, mem_append]
  rw [BothSurvive, strategy.survives, strategy.survives, ← not_iff_not, not_not, not_or, not_not]
  constructor
  · intro ⟨⟨⟨m, onLeft, least⟩, leftAlone⟩, ⟨m', onRight, least'⟩, rightAlone⟩
    have leftFull := leftAlone (ne_nil_of_mem onRight)
    have rightFull := rightAlone (ne_nil_of_mem onLeft)
    refine ⟨⟨m, onLeft, m', onRight, le_antisymm (least m' onRight) (least' m onLeft), fun other mem => ?_⟩, ?_⟩
    · rcases held.mp mem with left | right
      · exact (least m' onRight).trans (least' other left)
      · exact least other right
    · tauto
  · intro ⟨⟨m, onLeft, m', onRight, eq, least⟩, full⟩
    refine ⟨⟨⟨m, onLeft, fun other mem => least other (held.mpr (.inr mem))⟩, ?_⟩,
      ⟨m', onRight, fun other mem => eq ▸ least other (held.mpr (.inl mem))⟩, ?_⟩
    · tauto
    · tauto

/-- The oldest member is alone on its side. -/
theorem keepOldest_one_side_three :
    let oldest : Member := ⟨.localTo "a", 1, .up, []⟩
    let others : List Member := [⟨.localTo "b", 2, .up, []⟩, ⟨.localTo "c", 2, .up, []⟩]
    ¬ BothSurvive (KeepOldestStrategy.mk false).decide (KeepOldestStrategy.mk false).decide [oldest] others := by
  intro oldest others
  refine (keepOldest_one_side_iff ⟨false⟩ (List.Perm.refl _)).mpr (.inl ?_)
  rintro ⟨m, onLeft, m', onRight, eq, _⟩
  cases mem_singleton.mp onLeft
  have younger : ∀ m' ∈ others, oldest.upNumber ≠ m'.upNumber := by decide
  exact younger m' onRight eq

/-- Members start with one number, and both sides survive whatever `downIfAlone` says. -/
theorem keepOldest_both_sides_survive :
    let a := [upMember "a", upMember "b"]
    let b := [upMember "c", upMember "d"]
    (a ++ b).Nodup ∧
      BothSurvive (KeepOldestStrategy.mk false).decide (KeepOldestStrategy.mk false).decide a b ∧
      BothSurvive (KeepOldestStrategy.mk true).decide (KeepOldestStrategy.mk true).decide a b := by
  refine ⟨by decide, ⟨?_, ?_⟩, ?_, ?_⟩ <;> decide

inductive SbrAction where
  | none
  | downUnreachable (addresses : List String)
  | downAll (addresses : List String)
  | downSelf
  deriving DecidableEq

inductive QuorumNotice where
  | lost
  | regained
  deriving DecidableEq

structure SbrRuntime where
  strategy : DowningStrategy
  stableAfter : Nat
  unstableSince : Option Nat
  observed : Bool
  quorumLost : Bool

namespace SbrRuntime

def new (strategy : DowningStrategy) (stableAfter : Nat) : SbrRuntime :=
  { strategy, stableAfter, unstableSince := none, observed := false, quorumLost := false }

variable (runtime : SbrRuntime)

def withObserver : SbrRuntime := { runtime with observed := true }

def noteQuorumLost : List QuorumNotice × SbrRuntime :=
  if runtime.quorumLost then ([], runtime)
  else (if runtime.observed then [.lost] else [], { runtime with quorumLost := true })

def noteQuorumRegained : List QuorumNotice × SbrRuntime :=
  if runtime.quorumLost then (if runtime.observed then [.regained] else [], { runtime with quorumLost := false })
  else ([], runtime)

/-- Instants are counted from the first one; an earlier instant has duration zero. -/
def tick (runtime : SbrRuntime) (state : MembershipState) (now : Nat) :
    SbrAction × List QuorumNotice × SbrRuntime :=
  let alive := state.members.filter fun m => m.status ≠ .down ∧ m.status ≠ .removed
  let reachable := alive.filter fun m => state.reachability.isReachable m.address
  let unreachable := alive.filter fun m => !state.reachability.isReachable m.address
  if unreachable.isEmpty then
    let (notices, runtime) := { runtime with unstableSince := none }.noteQuorumRegained
    (.none, notices, runtime)
  else
    -- The first tick that finds a member unreachable starts the stability margin.
    let since := runtime.unstableSince.getD now
    let runtime := { runtime with unstableSince := some since }
    if now - since < runtime.stableAfter then (.none, [], runtime)
    else
      match runtime.strategy reachable unreachable with
      | .stay => (.none, [], runtime)
      | .downUnreachable => (.downUnreachable (unreachable.map fun m => m.address.display), [], runtime)
      | .downAll => (.downAll (state.members.map fun m => m.address.display), [], runtime)
      | .downSelf =>
        let (notices, runtime) := runtime.noteQuorumLost
        (.downSelf, notices, runtime)

theorem tick_of_reachable {st : MembershipState} (t : Nat) (reports : st.reachability = .new) :
    (runtime.tick st t).1 = .none := by
  simp [tick, reports]

end SbrRuntime

end Atomr.Cluster
