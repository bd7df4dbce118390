import Atomr.Cluster.RemoteAdapter

/-! Merging gossip.

Versions are joined, but members and reachability records are overwritten by the side that is merged
in: the merge is associative and idempotent, and the order of the sides decides every conflict. A
terminated record is one of the things that can be overwritten.
-/

namespace Atomr.Cluster

open Atomr.Core Library List Option Table Keyed

namespace Gossip

structure Same (a b : Gossip) : Prop where
  version : ∀ node, a.version.versions.lookup node = b.version.versions.lookup node
  members : ∀ address, a.state.find address = b.state.find address
  records : ∀ pair, a.state.reachability.records.lookup pair = b.state.reachability.records.lookup pair

/-- Wherever both hold a member or a record, they hold the same one. -/
structure Agrees (a b : Gossip) : Prop where
  members : ∀ address, ∀ m ∈ a.state.find address, ∀ m' ∈ b.state.find address, m = m'
  records : ∀ pair, ∀ status ∈ a.state.reachability.records.lookup pair,
    ∀ status' ∈ b.state.reachability.records.lookup pair, status = status'

section Lookups
variable (a b : Gossip)

theorem lookup_version_merge (n : String) :
    (a.merge b).version.versions.lookup n =
      (a.version.versions.lookup n).merge max (b.version.versions.lookup n) := by
  simp only [merge, VectorClock.merge, lookup_mergeWith]
  cases a.version.versions.lookup n <;> cases b.version.versions.lookup n
  case none.none => rfl
  case some.none => rfl
  case none.some v =>
    simp only [getD_none, Option.merge, Option.some.injEq]
    split <;> omega
  case some.some h v =>
    simp only [getD_some, Option.merge, Option.some.injEq]
    split <;> omega

theorem members_merge :
    (a.merge b).state.members =
      b.state.members.foldl (Keyed.put Member.address) (a.state.members.foldl (Keyed.put Member.address) []) := by
  simp only [merge, MembershipState.foldl_addOrUpdate, foldl_append]
  rfl

theorem lookup_records_merge (p : Address × Address) :
    (a.merge b).state.reachability.records.lookup p =
      (b.state.reachability.records.lookup p).or (a.state.reachability.records.lookup p) := by
  simp only [merge, foldl_append, lookup_foldl_insert]
  rw [AList.lookup_empty, or_none]

theorem distinct_merge : (a.merge b).state.Distinct := by
  unfold MembershipState.Distinct
  rw [members_merge]
  apply distinct_foldl_put
  apply distinct_foldl_put
  exact nodup_nil

variable {a b}

theorem find_merge (left : a.state.Distinct) (right : b.state.Distinct) (addr : Address) :
    (a.merge b).state.find addr = (b.state.find addr).or (a.state.find addr) := by
  unfold MembershipState.find
  rw [members_merge, find_foldl_put _ right, find_foldl_put _ left]
  exact congrArg _ (or_none ..)

end Lookups

variable {a b c : Gossip}

theorem or_comm_iff {α : Type} {x y : Option α} : x.or y = y.or x ↔ ∀ u ∈ y, ∀ v ∈ x, u = v := by
  cases x <;> cases y <;> simp [eq_comm]

theorem merge_comm_iff (left : a.state.Distinct) (right : b.state.Distinct) :
    Same (a.merge b) (b.merge a) ↔ a.Agrees b := by
  constructor
  · intro eq
    refine ⟨fun addr => or_comm_iff.mp ?_, fun p => or_comm_iff.mp ?_⟩
    · rw [← find_merge left right, eq.members, find_merge right left]
    · rw [← lookup_records_merge, eq.records, lookup_records_merge]
  · intro agree
    refine ⟨fun n => ?_, fun addr => ?_, fun p => ?_⟩
    · rw [lookup_version_merge, lookup_version_merge]
      exact Std.Commutative.comm ..
    · rw [find_merge left right, find_merge right left]
      exact or_comm_iff.mpr (agree.members addr)
    · rw [lookup_records_merge, lookup_records_merge]
      exact or_comm_iff.mpr (agree.records p)

theorem merge_assoc (first : a.state.Distinct) (second : b.state.Distinct) (third : c.state.Distinct) :
    Same ((a.merge b).merge c) (a.merge (b.merge c)) := by
  refine ⟨fun n => ?_, fun addr => ?_, fun p => ?_⟩
  · simp only [lookup_version_merge]
    exact Std.Associative.assoc ..
  · rw [find_merge (distinct_merge a b) third, find_merge first second, find_merge first (distinct_merge b c),
      find_merge second third, Option.or_assoc]
  · simp only [lookup_records_merge, Option.or_assoc]

/-- The members are put twice: first they are appended, then each replaces itself. -/
theorem members_merge_self (nodup : a.state.Distinct) : (a.merge a).state.members = a.state.members := by
  have app : a.state.members.foldl (Keyed.put Member.address) [] = a.state.members := foldl_put_append nodup
  rw [members_merge, app]
  exact foldl_put_of_subset nodup (List.Subset.refl _)

theorem merge_self (nodup : a.state.Distinct) : Same (a.merge a) a := by
  refine ⟨fun n => ?_, fun addr => ?_, fun p => ?_⟩
  · rw [lookup_version_merge]
    exact Std.IdempotentOp.idempotent _
  · rw [find_merge nodup nodup, Option.or_self]
  · rw [lookup_records_merge, Option.or_self]

/-- The merge joins exactly those that agree wherever they overlap; only the order of two sides matters. -/
theorem merge_join_iff (first : a.state.Distinct) (second : b.state.Distinct) (third : c.state.Distinct) :
    (Same (a.merge b) (b.merge a) ∧ Same ((a.merge b).merge c) (a.merge (b.merge c)) ∧
      Same (a.merge a) a ∧ (a.merge a).state.members = a.state.members) ↔ a.Agrees b := by
  constructor
  · intro ⟨commutes, _⟩
    exact (merge_comm_iff first second).mp commutes
  · intro agree
    exact ⟨(merge_comm_iff first second).mpr agree, merge_assoc first second third, merge_self first,
      members_merge_self first⟩

def ofMember (m : Member) : Gossip := ⟨.new, MembershipState.new.addOrUpdate m⟩

theorem distinct_ofMember (m : Member) : (ofMember m).state.Distinct := nodup_singleton _

theorem merge_join_disjoint :
    let first := ofMember (.new (.localTo "A") [])
    let second := ofMember (.new (.localTo "B") [])
    first.state.Distinct ∧ second.state.Distinct ∧ first.Agrees second ∧
      Same (first.merge second) (second.merge first) := by
  intro first second
  have agree : first.Agrees second := by
    refine ⟨fun addr m found m' found' => ?_, fun pair status found => ?_⟩
    · -- Only the first gossip holds the address of the first member.
      have here : Address.localTo "A" = addr := by
        by_contra other
        have absent : first.state.find addr = none := by
          exact (find_cons ..).trans (if_neg other)
        rw [absent] at found
        cases found
      subst here
      cases found'
    · cases found
  exact ⟨distinct_ofMember _, distinct_ofMember _, agree,
    ((merge_join_iff (distinct_ofMember _) (distinct_ofMember _) (distinct_ofMember _) (c := first)).mpr agree).1⟩

/-- Two nodes hold different statuses of one member, and the side that is merged in decides. -/
theorem merge_keeps_the_right_side :
    let before : Member := ⟨.localTo "A", 1, .up, []⟩
    let after : Member := ⟨.localTo "A", 1, .down, []⟩
    (ofMember before).state.Distinct ∧ (ofMember after).state.Distinct ∧
      ((ofMember before).merge (ofMember after)).state.members = [after] ∧
      ((ofMember after).merge (ofMember before)).state.members = [before] ∧
      ¬ Same ((ofMember before).merge (ofMember after)) ((ofMember after).merge (ofMember before)) := by
  refine ⟨distinct_ofMember _, distinct_ofMember _, by decide, by decide, fun eq => ?_⟩
  have members := eq.members (.localTo "A")
  revert members
  decide

end Gossip

inductive RecordAction where
  | reachable (observer subject : Address)
  | unreachable (observer subject : Address)
  | terminated (observer subject : Address)
  | merge (other : Gossip)
  | mergeInto (other : Gossip)
  | markUnreachable (observer peer : Address)

namespace Gossip

variable (gossip : Gossip)

/-- The update that the adapter makes under its lock. -/
def markUnreachable (observer peer : Address) : Gossip :=
  { gossip with state.reachability.records := gossip.state.reachability.records.insert (observer, peer) .unreachable }

def withReachability (reachability : Reachability) : Gossip :=
  { gossip with state.reachability := reachability }

def step : RecordAction → Option Gossip
  | .reachable observer subject =>
    some (gossip.withReachability (gossip.state.reachability.reachable observer subject))
  | .unreachable observer subject =>
    some (gossip.withReachability (gossip.state.reachability.unreachable observer subject))
  | .terminated observer subject =>
    some (gossip.withReachability (gossip.state.reachability.terminated observer subject))
  | .merge other => some (gossip.merge other)
  | .mergeInto other => some (other.merge gossip)
  | .markUnreachable observer peer => some (gossip.markUnreachable observer peer)

def record (pair : Address × Address) : Option ReachabilityStatus := gossip.state.reachability.records.lookup pair

theorem record_merge (a b : Gossip) (p : Address × Address) : (a.merge b).record p = (b.record p).or (a.record p) :=
  a.lookup_records_merge b p

/-- The action brings no other record of the pair: no older gossip is merged in over it, and the adapter
does not mark it. -/
def Spares (pair : Address × Address) (_ : Gossip) : RecordAction → Prop
  | .merge other => ∀ status ∈ other.record pair, status = .terminated
  | .markUnreachable observer peer => (observer, peer) ≠ pair
  | _ => True

instance (pair : Address × Address) (gossip : Gossip) (action : RecordAction) :
    Decidable (Spares pair gossip action) := by
  cases action <;> unfold Spares <;> infer_instance

/-- Whether a termination survives a step is decided by that step. -/
theorem terminated_step_iff {gossip next : Gossip} {act : RecordAction} {p : Address × Address}
    (h : gossip.record p = some .terminated) (taken : gossip.step act = some next) :
    next.record p = some .terminated ↔ Spares p gossip act := by
  cases act with
  | reachable observer subject =>
    cases taken
    exact iff_of_true (Reachability.lookup_report h) trivial
  | unreachable observer subject =>
    cases taken
    exact iff_of_true (Reachability.lookup_report h) trivial
  | terminated observer subject =>
    cases taken
    refine iff_of_true ((lookup_insert_if ..).trans ?_) trivial
    split
    · rfl
    · exact h
  | merge other =>
    cases taken
    rw [record_merge, h, Spares]
    cases other.record p <;> simp
  | mergeInto other =>
    cases taken
    refine iff_of_true ?_ trivial
    rw [record_merge, h, some_or]
  | markUnreachable observer pr =>
    cases taken
    have marked : (gossip.markUnreachable observer pr).record p =
        if p = (observer, pr) then some .unreachable else gossip.record p := lookup_insert_if ..
    rw [marked, h]
    unfold Spares
    split
    next eq => simp [eq]
    next other => simpa using Ne.symm other

/-- A termination lasts, and shows in the status of the subject, through every run that spares its record;
the first step that does not takes it away. -/
theorem terminated_stays {pair : Address × Address} {first last : Gossip} {actions : List RecordAction}
    (held : first.record pair = some .terminated) (run : Run step (Spares pair) first actions last) :
    last.record pair = some .terminated ∧ last.state.reachability.status pair.2 = .terminated ∧
    ∀ action next, last.step action = some next →
      (next.record pair = some .terminated ↔ Spares pair last action) := by
  have kept : last.record pair = some .terminated := run.invariant (·.record pair = some .terminated)
    (fun gossip action next held spared taken => (terminated_step_iff held taken).mpr spared) held
  exact ⟨kept, Reachability.status_of_terminated kept, fun action next taken => terminated_step_iff kept taken⟩

def reported : Gossip := Gossip.new.withReachability (Reachability.new.terminated (.localTo "A") (.localTo "B"))

def sparing : List RecordAction :=
  [.reachable (.localTo "A") (.localTo "B"), .markUnreachable (.localTo "C") (.localTo "B"),
    .mergeInto (Gossip.new.markUnreachable (.localTo "A") (.localTo "B")), .merge reported]

theorem terminated_stays_reported :
    ∃ last, Run step (Spares (.localTo "A", .localTo "B")) reported sparing last ∧
      last.state.reachability.status (.localTo "B") = .terminated := by
  exact Run.executed rfl fun run => (terminated_stays rfl run).2.1

/-- The adapter marks a terminated node, and so does the merge of an old report. -/
theorem termination_overwritten :
    let pair : Address × Address := (.localTo "A", .localTo "B")
    let stale : Gossip := Gossip.new.withReachability (Reachability.new.reachable pair.1 pair.2)
    reported.record pair = some .terminated ∧
      (reported.markUnreachable pair.1 pair.2).record pair = some .unreachable ∧
      (reported.markUnreachable pair.1 pair.2).state.reachability.status pair.2 = .unreachable ∧
      (reported.merge stale).record pair = some .reachable ∧
      (reported.merge stale).state.reachability.status pair.2 = .reachable := by
  decide +kernel

end Gossip

end Atomr.Cluster
