import Atomr.Cluster.SplitBrain
import Atomr.Library.History
import Atomr.Library.Runs
import Mathlib.Data.List.DropRight

/-! What a resolver does over time.

The runtime keeps one instant and one flag between ticks. The instant is that of the first tick of the
partition it is watching, and the flag says which of its two calls the observer was given last.
-/

namespace Atomr.Cluster

open Library List

structure SbrTick where
  state : MembershipState
  now : Nat

/-- Some member is unreachable and neither down nor removed. -/
def SbrTick.Partitioned (tick : SbrTick) : Prop :=
  ∃ m ∈ tick.state.members, (m.status ≠ .down ∧ m.status ≠ .removed) ∧
    tick.state.reachability.isReachable m.address = false
deriving Decidable

structure SbrRecord where
  tick : SbrTick
  action : SbrAction
  notices : List QuorumNotice

/-- A runtime with its past, which it does not read. -/
structure SbrWatch where
  runtime : SbrRuntime
  past : List SbrRecord

namespace SbrWatch

def start (runtime : SbrRuntime) : SbrWatch := ⟨runtime, []⟩

def step (watch : SbrWatch) (tick : SbrTick) : Option SbrWatch :=
  let (action, notices, runtime) := watch.runtime.tick tick.state tick.now
  some ⟨runtime, watch.past ++ [⟨tick, action, notices⟩]⟩

def InOrder (watch : SbrWatch) (tick : SbrTick) : Prop := ∀ record ∈ watch.past, record.tick.now ≤ tick.now
deriving Decidable

end SbrWatch

namespace SbrRuntime

variable (runtime : SbrRuntime) {tick : SbrTick}

theorem isEmpty_unreachable (tick : SbrTick) :
    ((tick.state.members.filter fun m => m.status ≠ .down ∧ m.status ≠ .removed).filter
      fun m => !tick.state.reachability.isReachable m.address).isEmpty = true ↔ ¬ tick.Partitioned := by
  rw [List.isEmpty_iff, List.filter_filter, List.filter_eq_nil_iff]
  constructor
  · rintro none ⟨m, mem, alive, unreachable⟩
    exact none m mem (by simp [alive, unreachable])
  · intro healthy m mem found
    rw [Bool.and_eq_true, Bool.not_eq_true', decide_eq_true_eq] at found
    exact healthy ⟨m, mem, found.2, found.1⟩

theorem tick_healthy (healthy : ¬ tick.Partitioned) :
    runtime.tick tick.state tick.now =
      (.none, if runtime.quorumLost ∧ runtime.observed then [.regained] else [],
        { runtime with unstableSince := none, quorumLost := false }) := by
  unfold SbrRuntime.tick
  rw [if_pos ((isEmpty_unreachable tick).mpr healthy)]
  cases runtime.quorumLost <;> cases runtime.observed <;> simp [noteQuorumRegained]

/-- What a tick of a partition leaves, by the action it returns. -/
structure Watched (tick : SbrTick) (outcome : SbrAction × List QuorumNotice × SbrRuntime) : Prop where
  stable : outcome.1 ≠ .none → runtime.stableAfter ≤ tick.now - runtime.unstableSince.getD tick.now
  notices : outcome.2.1 = if outcome.1 = .downSelf ∧ runtime.quorumLost = false ∧ runtime.observed then [.lost] else []
  runtime : outcome.2.2 = { runtime with
    unstableSince := some (runtime.unstableSince.getD tick.now)
    quorumLost := runtime.quorumLost || decide (outcome.1 = .downSelf) }

theorem tick_partitioned (parted : tick.Partitioned) :
    runtime.Watched tick (runtime.tick tick.state tick.now) := by
  unfold SbrRuntime.tick
  dsimp only
  rw [if_neg fun healthy => (isEmpty_unreachable tick).mp healthy parted]
  split
  next early => exact ⟨fun acts => absurd rfl acts, rfl, by simp⟩
  next late =>
    have stable := Nat.le_of_not_lt late
    split
    · exact ⟨fun _ => stable, rfl, by simp⟩
    · exact ⟨fun _ => stable, rfl, by simp⟩
    · exact ⟨fun _ => stable, rfl, by simp⟩
    · refine ⟨fun _ => stable, ?_, ?_⟩
      · cases runtime.quorumLost <;> cases runtime.observed <;> simp [noteQuorumLost]
      · cases runtime.quorumLost <;> simp [noteQuorumLost]

end SbrRuntime

namespace SbrWatch

/-- The records end in a stretch of partitioned ticks that begins at the instant. -/
def PartitionedSince (past : List SbrRecord) (since : Nat) : Prop :=
  ∃ before first window, past = before ++ first :: window ∧ first.tick.now = since ∧
    ∀ record ∈ first :: window, record.tick.Partitioned

variable {record : SbrRecord} {stableAfter : Nat} {next : SbrWatch} {tick : SbrTick}

theorem PartitionedSince.snoc {past : List SbrRecord} {since : Nat} (h : PartitionedSince past since)
    (parted : record.tick.Partitioned) : PartitionedSince (past ++ [record]) since := by
  obtain ⟨pre, first, win, rfl, t, all⟩ := h
  refine ⟨pre, first, win ++ [record], by simp, t, fun other mem => ?_⟩
  rw [← cons_append, mem_append] at mem
  rcases mem with old | new
  · exact all other old
  · exact mem_singleton.mp new ▸ parted

theorem PartitionedSince.singleton (past : List SbrRecord) (parted : record.tick.Partitioned) :
    PartitionedSince (past ++ [record]) record.tick.now :=
  ⟨past, record, [], rfl, rfl, fun _ mem => mem_singleton.mp mem ▸ parted⟩

/-- An action comes with a partition that has lasted for the margin. -/
def Stable (stableAfter : Nat) (earlier : List SbrRecord) (record : SbrRecord) : Prop :=
  record.action ≠ .none → ∃ since, since + stableAfter ≤ record.tick.now ∧ PartitionedSince (earlier ++ [record]) since

structure Margin (stableAfter : Nat) (watch : SbrWatch) : Prop where
  margin : watch.runtime.stableAfter = stableAfter
  since : ∀ since ∈ watch.runtime.unstableSince, PartitionedSince watch.past since
  justified : Justified (Stable stableAfter) watch.past

variable {watch : SbrWatch}

theorem Margin.measured (h : Margin stableAfter watch) (r : SbrRecord) (inOrder : watch.InOrder r.tick)
    (parted : r.tick.Partitioned) :
    watch.runtime.unstableSince.getD r.tick.now ≤ r.tick.now ∧
      PartitionedSince (watch.past ++ [r]) (watch.runtime.unstableSince.getD r.tick.now) := by
  cases noted : watch.runtime.unstableSince with
  | none => exact ⟨Nat.le_refl _, .singleton watch.past parted⟩
  | some since =>
    have stretch := h.since since noted
    refine ⟨?_, stretch.snoc parted⟩
    obtain ⟨pre, first, win, split, t, _⟩ := stretch
    rw [← t]
    apply inOrder
    rw [split]
    exact mem_append_right _ mem_cons_self

theorem Margin.step (h : Margin stableAfter watch) (inOrder : watch.InOrder tick)
    (taken : watch.step tick = some next) : Margin stableAfter next := by
  unfold SbrWatch.step at taken
  by_cases parted : tick.Partitioned
  · have watched := watch.runtime.tick_partitioned parted
    generalize watch.runtime.tick tick.state tick.now = out at watched taken
    obtain ⟨act, notices, rt⟩ := out
    cases taken
    obtain ⟨past, stretch⟩ := h.measured ⟨tick, act, notices⟩ inOrder parted
    have post : rt = _ := watched.runtime
    refine ⟨?_, fun since noted => ?_, h.justified.snoc fun acts => ⟨_, ?_, stretch⟩⟩
    · rw [post]
      exact h.margin
    · rw [post] at noted
      cases noted
      exact stretch
    · have lasted := watched.stable acts
      rw [h.margin] at lasted
      dsimp only at past ⊢
      omega
  · rw [watch.runtime.tick_healthy parted] at taken
    cases taken
    exact ⟨h.margin, fun _ ha => (by cases ha), h.justified.snoc fun acts => absurd rfl acts⟩

/-- The resolver acts only on partitions that have been seen at every tick for the margin. -/
theorem acts_on_stable_partition {runtime : SbrRuntime} (fresh : runtime.unstableSince = none) {ticks : List SbrTick}
    {watch : SbrWatch} (run : Run step InOrder (start runtime) ticks watch) (earlier later : List SbrRecord)
    (record : SbrRecord) (made : watch.past = earlier ++ record :: later) (acts : record.action ≠ .none) :
    ∃ before first window, earlier ++ [record] = before ++ first :: window ∧
      runtime.stableAfter ≤ record.tick.now - first.tick.now ∧ first.tick.now ≤ record.tick.now ∧
      ∀ seen ∈ first :: window, seen.tick.Partitioned := by
  have margin : Margin runtime.stableAfter watch := run.invariant (Margin runtime.stableAfter)
    (fun watch tick next held inOrder taken => held.step inOrder taken)
    ⟨rfl, fun since noted => (by cases fresh.symm.trans noted), .nil⟩
  obtain ⟨since, lasted, before, first, window, split, now, all⟩ := margin.justified earlier record later made acts
  exact ⟨before, first, window, split, by omega, by omega, all⟩

def seen (reports : Reachability) (now : Nat) : SbrTick :=
  ⟨⟨[⟨.localTo "A", 1, .up, []⟩, ⟨.localTo "B", 2, .up, []⟩], reports⟩, now⟩

def apart : Nat → SbrTick := seen (Reachability.new.unreachable (.localTo "A") (.localTo "B"))

theorem acts_on_stable_partition_apart :
    ∃ watch record, Run step InOrder (start (.new (StaticQuorumStrategy.mk 2).decide 2))
        [seen .new 0, apart 1, apart 3] watch ∧
      watch.past.getLast? = some record ∧ record.action = .downSelf ∧
      ∃ first ∈ watch.past, 2 ≤ record.tick.now - first.tick.now := by
  have run : Run step InOrder (start (.new (StaticQuorumStrategy.mk 2).decide 2))
    [seen .new 0, apart 1, apart 3] _ := Run.of_foldlM rfl
  obtain ⟨pre, first, window, split, lasted, _⟩ := acts_on_stable_partition rfl run [_, _] [] _ rfl (by decide)
  refine ⟨_, _, run, rfl, rfl, first, ?_, lasted⟩
  have mem : first ∈ pre ++ first :: window := mem_append_right _ mem_cons_self
  rw [← split] at mem
  exact mem

def since (call : QuorumNotice) (past : List SbrRecord) : List SbrRecord :=
  past.rtakeWhile fun record => call ∉ record.notices

def calls (past : List SbrRecord) : List QuorumNotice := past.flatMap SbrRecord.notices

/-- Loss and regain in turn, beginning with a loss. -/
def Alternate (calls : List QuorumNotice) : Prop :=
  ∀ i call, calls[i]? = some call → call = if i % 2 = 0 then .lost else .regained

theorem since_snoc (c : QuorumNotice) (past : List SbrRecord) (r : SbrRecord) :
    since c (past ++ [r]) = if c ∈ r.notices then [] else since c past ++ [r] := by
  unfold since
  by_cases made : c ∈ r.notices <;> simp [made]

theorem Alternate.snoc {made : List QuorumNotice} (alternate : Alternate made) {c : QuorumNotice}
    (next : c = if made.length % 2 = 0 then .lost else .regained) : Alternate (made ++ [c]) := by
  intro i other found
  rw [List.getElem?_append] at found
  split at found
  · exact alternate i other found
  next beyond =>
    have last : i = made.length := by
      have bound := (List.getElem?_eq_some_iff.mp found).1
      rw [length_singleton] at bound
      omega
    subst last
    simp at found
    rw [← found]
    exact next

/-- A lost call is due at an action on the own node, unless one has been returned since the last regain. -/
def Due (earlier : List SbrRecord) (record : SbrRecord) : Prop :=
  (.lost ∈ record.notices ↔
    record.action = .downSelf ∧ ∀ other ∈ since .regained earlier, other.action ≠ .downSelf) ∧
  (.regained ∈ record.notices ↔ ¬ record.tick.Partitioned ∧
    (∃ other ∈ earlier, .lost ∈ other.notices) ∧ ∀ other ∈ since .lost earlier, other.tick.Partitioned) ∧
  record.notices.length ≤ 1

inductive Noted (flag : Bool) (record : SbrRecord) : Bool → Prop where
  | lost (partitioned : record.tick.Partitioned) (before : flag = false) (action : record.action = .downSelf)
      (notices : record.notices = [.lost]) : Noted flag record true
  | regained (healthy : ¬ record.tick.Partitioned) (before : flag = true) (action : record.action ≠ .downSelf)
      (notices : record.notices = [.regained]) : Noted flag record false
  | silent (healthy : ¬ record.tick.Partitioned → flag = false) (action : record.action = .downSelf → flag = true)
      (notices : record.notices = []) : Noted flag record flag

theorem step_noted (obs : watch.runtime.observed = true) (taken : watch.step tick = some next) :
    ∃ r, next.past = watch.past ++ [r] ∧ next.runtime.observed = true ∧
      Noted watch.runtime.quorumLost r next.runtime.quorumLost := by
  unfold SbrWatch.step at taken
  by_cases parted : tick.Partitioned
  · obtain ⟨_, made, post⟩ := watch.runtime.tick_partitioned parted
    generalize watch.runtime.tick tick.state tick.now = out at made post taken
    obtain ⟨act, notices, rt⟩ := out
    cases taken
    dsimp only at made post
    refine ⟨_, rfl, by rw [post]; exact obs, ?_⟩
    rw [post]
    by_cases self : act = .downSelf
    · cases pre : watch.runtime.quorumLost with
      | false =>
        rw [if_pos ⟨self, pre, obs⟩] at made
        rw [decide_eq_true self]
        exact .lost parted rfl self made
      | true =>
        rw [if_neg (by simp [pre])] at made
        exact .silent (fun healthy => absurd parted healthy) (fun _ => rfl) made
    · rw [if_neg (by simp [self])] at made
      rw [decide_eq_false self, Bool.or_false]
      exact .silent (fun healthy => absurd parted healthy) (fun eq => absurd eq self) made
  · rw [watch.runtime.tick_healthy parted] at taken
    cases taken
    refine ⟨_, rfl, obs, ?_⟩
    cases pre : watch.runtime.quorumLost with
    | false => exact .silent (fun _ => rfl) (fun eq => (by cases eq)) (by simp)
    | true => exact .regained parted rfl (fun eq => (by cases eq)) (by simp [obs])

structure Notified (flag : Bool) (past : List SbrRecord) : Prop where
  turn : flag = true ↔ (calls past).length % 2 = 1
  alternate : Alternate (calls past)
  acted : flag = true ↔ ∃ record ∈ since .regained past, record.action = .downSelf
  parted : flag = true ↔
    (∃ record ∈ past, .lost ∈ record.notices) ∧ ∀ record ∈ since .lost past, record.tick.Partitioned
  justified : Justified Due past

section Notified
variable {flag flag' : Bool} {past : List SbrRecord} {r : SbrRecord} (h : Notified flag past)
include h

variable (noted : Noted flag r flag')
include noted

theorem Notified.due : Due past r := by
  obtain ⟨_, _, acted, parted, _⟩ := h
  unfold Due
  cases noted with
  | lost partitioned pre act notices =>
    subst pre
    simpa [notices, act, partitioned] using acted
  | regained healthy pre act notices =>
    subst pre
    simpa [notices, act, healthy] using parted
  | silent healthy act notices =>
    simp only [notices, not_mem_nil, false_iff, not_and]
    refine ⟨fun self free => ?_, fun whole called all => ?_, Nat.zero_le _⟩
    · obtain ⟨other, mem, eq⟩ := acted.mp (act self)
      exact free other mem eq
    · have set := parted.mpr ⟨called, all⟩
      rw [healthy whole] at set
      cases set

theorem Notified.acted_snoc :
    flag' = true ↔ ∃ other ∈ since .regained (past ++ [r]), other.action = .downSelf := by
  rw [since_snoc]
  cases noted with
  | lost parted pre act notices => simp [notices, act]
  | regained healthy pre act notices => simp [notices]
  | silent healthy act notices =>
    have acted := h.acted
    simp only [notices, not_mem_nil, if_false, mem_append, mem_singleton]
    constructor
    · intro set
      obtain ⟨other, mem, self⟩ := acted.mp set
      exact ⟨other, .inl mem, self⟩
    · rintro ⟨other, mem | rfl, self⟩
      · exact acted.mpr ⟨other, mem, self⟩
      · exact act self

theorem Notified.parted_snoc :
    flag' = true ↔ (∃ other ∈ past ++ [r], .lost ∈ other.notices) ∧
      ∀ other ∈ since .lost (past ++ [r]), other.tick.Partitioned := by
  rw [since_snoc]
  cases noted with
  | lost partitioned pre act notices => simp [notices]
  | regained healthy pre act notices => simp [notices, healthy]
  | silent healthy act notices =>
    have parted := h.parted
    simp only [notices]
    constructor
    · intro set
      obtain ⟨⟨other, mem, called⟩, all⟩ := parted.mp set
      refine ⟨⟨other, mem_append_left _ mem, called⟩, fun other mem => ?_⟩
      rcases mem_append.mp mem with old | new
      · exact all other old
      -- A healthy tick would have cleared the flag.
      · by_contra whole
        rw [healthy (mem_singleton.mp new ▸ whole)] at set
        cases set
    · rintro ⟨⟨other, mem, called⟩, all⟩
      refine parted.mpr ⟨⟨other, ?_, called⟩, fun other mem => all other (mem_append_left _ mem)⟩
      rcases mem_append.mp mem with old | new
      · exact old
      · rw [mem_singleton.mp new, notices] at called
        cases called

theorem Notified.calls_snoc :
    (flag' = true ↔ (calls (past ++ [r])).length % 2 = 1) ∧ Alternate (calls (past ++ [r])) := by
  have made : calls (past ++ [r]) = calls past ++ r.notices := by simp [calls]
  have turn := h.turn
  rw [made]
  cases noted with
  | lost parted pre act notices =>
    have even : (calls past).length % 2 = 0 := by
      rw [pre] at turn
      simpa using turn
    rw [notices, length_append, length_singleton]
    refine ⟨iff_of_true rfl (by omega), h.alternate.snoc ?_⟩
    rw [if_pos even]
  | regained healthy pre act notices =>
    have odd : (calls past).length % 2 = 1 := turn.mp pre
    rw [notices, length_append, length_singleton]
    refine ⟨iff_of_false (by simp) (by omega), h.alternate.snoc ?_⟩
    rw [if_neg (by omega)]
  | silent healthy act notices =>
    rw [notices, append_nil]
    exact ⟨turn, h.alternate⟩

theorem Notified.snoc : Notified flag' (past ++ [r]) where
  turn := (h.calls_snoc noted).1
  alternate := (h.calls_snoc noted).2
  acted := h.acted_snoc noted
  parted := h.parted_snoc noted
  justified := h.justified.snoc (h.due noted)

end Notified

theorem Notified.nil : Notified false [] where
  turn := by simp [calls]
  alternate := by simp [Alternate, calls]
  acted := by simp [since]
  parted := by simp
  justified := .nil

/-- The calls alternate. A loss is called at the first tick that downs the own node since the start or the
last regain, and a regain at the first healthy tick after a loss. -/
theorem notices_alternate (strategy : DowningStrategy) (stableAfter : Nat) {ticks : List SbrTick} {watch : SbrWatch}
    (run : Run step (fun _ _ => True) (start (SbrRuntime.new strategy stableAfter).withObserver) ticks watch) :
    Alternate (calls watch.past) ∧
    ∀ earlier record later, watch.past = earlier ++ record :: later →
      (.lost ∈ record.notices ↔
        record.action = .downSelf ∧ ∀ other ∈ since .regained earlier, other.action ≠ .downSelf) ∧
      (.regained ∈ record.notices ↔ ¬ record.tick.Partitioned ∧
        (∃ other ∈ earlier, .lost ∈ other.notices) ∧ ∀ other ∈ since .lost earlier, other.tick.Partitioned) ∧
      record.notices.length ≤ 1 := by
  have notified := run.invariant
    (fun watch => watch.runtime.observed = true ∧ Notified watch.runtime.quorumLost watch.past)
    (fun watch tick next held _ taken => by
      obtain ⟨record, past, observed, noted⟩ := step_noted held.1 taken
      rw [past]
      exact ⟨observed, held.2.snoc noted⟩)
    ⟨rfl, .nil⟩
  exact ⟨notified.2.alternate, notified.2.justified⟩

/-- Two losses with a regain between them; the second tick of a loss makes no call. -/
theorem notices_alternate_apart :
    ∃ watch, Run step (fun _ _ => True) (start (SbrRuntime.new (StaticQuorumStrategy.mk 2).decide 2).withObserver)
        [apart 1, apart 3, apart 4, seen .new 5, apart 6, apart 8] watch ∧
      calls watch.past = [.lost, .regained, .lost] ∧ Alternate (calls watch.past) := by
  exact Run.executed rfl fun run => ⟨rfl, (notices_alternate _ _ run).1⟩

end SbrWatch

end Atomr.Cluster
