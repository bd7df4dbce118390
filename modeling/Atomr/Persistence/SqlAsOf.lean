import Atomr.Persistence.SqlJournal

/-! Queries as of a time on the SQL journal.

A row is stored with the milliseconds of its clock reading, and the query compares them with a
cut-off in nanoseconds. A message is then seen from a millionth of its time on.
-/

namespace Atomr.Persistence

open Library List

namespace SqlJournal

/-- The tags come in an order that the server chooses. -/
def hydrateRow (arranged : List String → List String) (tables : SqlTables) (row : EventRow) : PersistentRepr where
  persistenceId := row.persistenceId
  sequenceNr := row.sequenceNr
  payload := row.payload
  manifest := row.manifest
  writerUuid := row.writerUuid
  deleted := row.deleted ≠ 0
  tags := arranged ((tables.eventTags.filter fun tag =>
    tag.persistenceId = row.persistenceId && tag.sequenceNr = row.sequenceNr).map TagRow.tag)

def hydrate (arranged : List String → List String) (tables : SqlTables) (rows : List EventRow) : List PersistentRepr :=
  rows.map (hydrateRow arranged tables)

def recordedBy (systemTimeNanos : Int64) (row : EventRow) : Bool :=
  row.deleted = 0 && row.systemTime.getD row.createdAt ≤ systemTimeNanos

def replayAsOf (arranged : List String → List String) (journal : SqlJournal) (pid : String) (systemTimeNanos : Int64) :
    Except JournalError (List PersistentRepr) :=
  let rows := orderBy EventRow.sequenceNr ((journal.tables.rowsOf pid).filter (recordedBy systemTimeNanos))
  .ok (hydrate arranged journal.tables rows)

end SqlJournal

/-- Saturate at the largest time of the column. -/
def clampNanos (v : Nat) : Int64 := if v > 2 ^ 63 - 1 then Int64.ofInt (2 ^ 63 - 1) else Int64.ofInt v

namespace SqlReadJournal

def eventsAsOf (arranged : List String → List String) (journal : SqlJournal) (pid : String) (systemTimeNanos : Nat) :
    Except JournalError (List EventEnvelope) :=
  (journal.replayAsOf arranged pid (clampNanos systemTimeNanos)).map (List.map EventEnvelope.ofRepr)

end SqlReadJournal

theorem toInt_clampNanos {v : Nat} (small : v < 2 ^ 63) : (clampNanos v).toInt = v := by
  rw [clampNanos, if_neg (by omega)]
  exact Int64.toInt_ofInt_of_le (by omega) (by omega)

section Hydration
variable {ts : SqlTables} {log : List Recorded}

theorem Stored.pairwise (stored : Stored ts log) :
    log.Pairwise fun first second => first.message.persistenceId = second.message.persistenceId →
      first.message.sequenceNr < second.message.sequenceNr := by
  have streams : ∀ pid, (logOf log pid).Pairwise fun first second =>
      first.message.sequenceNr < second.message.sequenceNr := by
    intro pid
    refine pairwise_map.mp ?_
    rw [stored.numbers]
    exact pairwise_lt_range'
  clear stored
  induction log with
  | nil => exact .nil
  | cons e rest ih =>
    refine pairwise_cons.mpr ⟨fun other mem eq => ?_, ih fun pid => ?_⟩
    · have own := streams e.message.persistenceId
      rw [logOf, filter_cons_of_pos (by simp)] at own
      exact (pairwise_cons.mp own).1 other (mem_filter.mpr ⟨mem, by simp [eq]⟩)
    · exact (streams pid).sublist ((sublist_cons_self e rest).filter _)

variable {e : Recorded}

theorem tags_of_distinct
    (nodup : log.Pairwise fun first second => first.message.persistenceId = second.message.persistenceId →
      first.message.sequenceNr < second.message.sequenceNr) (mem : e ∈ log) :
    ((log.flatMap fun e => tagRows e.message).filter fun tg =>
      tg.persistenceId = e.message.persistenceId && tg.sequenceNr = e.message.sequenceNr).map TagRow.tag =
        e.message.tags := by
  have own : ((tagRows e.message).filter fun tg =>
      tg.persistenceId = e.message.persistenceId && tg.sequenceNr = e.message.sequenceNr).map TagRow.tag =
        e.message.tags := by
    rw [filter_eq_self.mpr]
    · simp [tagRows, Function.comp_def]
    · intro tg found
      obtain ⟨_, _, rfl⟩ := mem_map.mp found
      simp
  -- The tags of another message carry another key.
  have hfor : ∀ other : Recorded, (other.message.persistenceId = e.message.persistenceId →
      other.message.sequenceNr ≠ e.message.sequenceNr) → (tagRows other.message).filter (fun tg =>
        tg.persistenceId = e.message.persistenceId && tg.sequenceNr = e.message.sequenceNr) = [] := by
    intro other ne
    refine filter_eq_nil_iff.mpr fun tg found => ?_
    obtain ⟨_, _, rfl⟩ := mem_map.mp found
    simpa using ne
  induction log with
  | nil => cases mem
  | cons first rest ih =>
    obtain ⟨later, nodup⟩ := pairwise_cons.mp nodup
    rw [flatMap_cons, filter_append, map_append]
    rcases mem_cons.mp mem with rfl | old
    · have none : (rest.flatMap fun e => tagRows e.message).filter (fun tg =>
          tg.persistenceId = e.message.persistenceId && tg.sequenceNr = e.message.sequenceNr) = [] := by
        rw [filter_flatMap, flatMap_eq_nil_iff]
        intro other among
        exact hfor other fun eq => Nat.ne_of_gt (later other among eq.symm)
      rw [own, none, map_nil, append_nil]
    · rw [hfor first fun eq => Nat.ne_of_lt (later e old eq)]
      exact ih nodup old

theorem hydrateRow_row (arranged : List String → List String) (stored : Stored ts log) (mem : e ∈ log) :
    SqlJournal.hydrateRow arranged ts e.row =
      { e.message with deleted := e.deleted, tags := arranged e.message.tags } := by
  have tags := tags_of_distinct stored.pairwise mem
  rw [← stored.tags] at tags
  rw [SqlJournal.hydrateRow, PersistentRepr.mk.injEq]
  refine ⟨rfl, rfl, rfl, rfl, rfl, ?_, congrArg arranged tags⟩
  cases flag : e.deleted <;> simp [Recorded.row, flag]

end Hydration

namespace SqlHistory

variable {sha256 : List UInt8 → List UInt8} {guard : SqlHistory → SqlAction → Prop} {worm : WormConfig}
  {actions : List SqlAction} {history : SqlHistory}

def envelope (arranged : List String → List String) (entry : Recorded) : EventEnvelope :=
  .ofRepr { entry.message with tags := arranged entry.message.tags }

def events (arranged : List String → List String) (history : SqlHistory) (pid : String) (condition : Recorded → Bool) :
    List EventEnvelope :=
  (orderBy (fun entry => entry.message.sequenceNr)
    (history.log.filter fun entry => entry.message.persistenceId = pid && !entry.deleted && condition entry)).map
      (envelope arranged)

/-- The events whose call had read the clock by the time. -/
def asOf (arranged : List String → List String) (history : SqlHistory) (pid : String) (systemTimeNanos : Nat) :
    List EventEnvelope :=
  history.events arranged pid fun entry => entry.reading.nanos ≤ systemTimeNanos

variable (arranged : List String → List String)

theorem events_eq (stored : Stored history.journal.tables history.log) (pid : String) (condition : Recorded → Bool) :
    history.events arranged pid condition =
      ((logOf history.log pid).filter fun e => !e.deleted && condition e).map (envelope arranged) := by
  have filt : (history.log.filter fun e =>
      e.message.persistenceId = pid && !e.deleted && condition e) =
      (logOf history.log pid).filter fun e => !e.deleted && condition e := by
    rw [logOf, filter_filter]
    refine filter_congr fun e _ => ?_
    rw [Bool.and_assoc, Bool.and_comm]
  have sorted : ((logOf history.log pid).filter fun e => !e.deleted && condition e).Pairwise
      fun first second => first.message.sequenceNr ≤ second.message.sequenceNr := by
    refine List.Pairwise.filter _ (pairwise_map.mp ?_)
    rw [stored.numbers]
    exact List.Pairwise.imp Nat.le_of_lt pairwise_lt_range'
  rw [events, filt, orderBy_of_sorted sorted]

variable {cutoff : Nat}

theorem recordedBy_row (small : cutoff < 2 ^ 63) (e : Recorded) :
    SqlJournal.recordedBy (clampNanos cutoff) e.row =
      (!e.deleted && decide (e.reading.nanos / 10 ^ 6 ≤ (cutoff : Int))) := by
  have time : e.reading.timestampMillis ≤ clampNanos cutoff ↔ e.reading.nanos / 10 ^ 6 ≤ (cutoff : Int) := by
    rw [Int64.le_iff_toInt_le, toInt_clampNanos small, DateTime.toInt_timestampMillis]
  cases flag : e.deleted <;> simp [SqlJournal.recordedBy, Recorded.row, flag, time]

/-- The query returns the messages whose milliseconds are at most the cut-off. -/
theorem eventsAsOf_eq (stored : Stored history.journal.tables history.log) (pid : String) (small : cutoff < 2 ^ 63) :
    SqlReadJournal.eventsAsOf arranged history.journal pid cutoff =
      .ok (history.events arranged pid fun e => e.reading.nanos / 10 ^ 6 ≤ (cutoff : Int)) := by
  let found := (history.journal.tables.rowsOf pid).filter (SqlJournal.recordedBy (clampNanos cutoff))
  have rows : found.map EventRow.unhashed = ((logOf history.log pid).filter fun e =>
      !e.deleted && decide (e.reading.nanos / 10 ^ 6 ≤ (cutoff : Int))).map Recorded.row := by
    have filt := congrArg (fun rows => (rows.filter fun r => r.persistenceId = pid).filter
      (SqlJournal.recordedBy (clampNanos cutoff))) stored.events
    simp only [filter_map] at filt
    refine filt.trans (congrArg (List.map Recorded.row) (filter_congr fun e _ => ?_))
    exact recordedBy_row small e
  have sorted : orderBy EventRow.sequenceNr found = found :=
    orderBy_of_sorted (((stored.increasing pid).imp Nat.le_of_lt).filter _)
  have hydrated : (SqlJournal.hydrate arranged history.journal.tables found).map EventEnvelope.ofRepr =
      (found.map EventRow.unhashed).map fun r =>
        EventEnvelope.ofRepr (SqlJournal.hydrateRow arranged history.journal.tables r) := by
    rw [SqlJournal.hydrate, map_map, map_map]
    rfl
  rw [SqlReadJournal.eventsAsOf, SqlJournal.replayAsOf, Except.map, sorted, hydrated, rows, events_eq arranged stored,
    map_map]
  refine congrArg Except.ok (map_congr_left fun e mem => ?_)
  have stored' := hydrateRow_row arranged stored (mem_filter.mp (mem_filter.mp mem).1).1
  rw [Function.comp, stored']
  rfl

/-- A cut-off between the milliseconds of a reading and its nanoseconds. -/
def Ahead (cutoff : Nat) (entry : Recorded) : Prop :=
  entry.reading.nanos / 10 ^ 6 ≤ (cutoff : Int) ∧ (cutoff : Int) < entry.reading.nanos

/-- A finer filter reads the same exactly when it leaves out nothing. -/
theorem map_filter_eq_iff {A B : Type} {coarse fine : A → Bool} {xs : List A} (read : A → B)
    (implies : ∀ x ∈ xs, fine x → coarse x) :
    (xs.filter coarse).map read = (xs.filter fine).map read ↔ ∀ x ∈ xs, coarse x → fine x := by
  have finer : xs.filter fine = (xs.filter coarse).filter fine := by
    rw [filter_filter]
    refine filter_congr fun x mem => ?_
    cases known : fine x with
    | false => rfl
    | true => exact (implies x mem known).symm
  constructor
  · intro eq x mem passes
    have lengths := congrArg List.length eq
    rw [length_map, length_map, finer] at lengths
    exact length_filter_eq_length_iff.mp lengths.symm x (mem_filter.mpr ⟨mem, passes⟩)
  · intro all
    have nothing : (xs.filter coarse).filter fine = xs.filter coarse :=
      filter_eq_self.mpr fun x mem => all x (mem_filter.mp mem).1 (mem_filter.mp mem).2
    rw [finer, nothing]

/-- The query answers as of its cut-off exactly when no message of the id is ahead of it. -/
theorem as_of_no_lookahead (run : Run (step sha256) guard (start worm) actions history) (pid : String) {cutoff : Nat}
    (small : cutoff < 2 ^ 63) :
    SqlReadJournal.eventsAsOf arranged history.journal pid cutoff = .ok (history.asOf arranged pid cutoff) ↔
      ∀ entry ∈ history.log, entry.message.persistenceId = pid → entry.deleted = false → ¬ Ahead cutoff entry := by
  have stored := SqlHistory.stored run
  rw [eventsAsOf_eq arranged stored pid small, Except.ok.injEq, asOf, events_eq arranged stored, events_eq arranged stored, map_filter_eq_iff]
  · simp only [logOf, mem_filter, decide_eq_true_eq, Bool.and_eq_true, Bool.not_eq_true', and_imp, Ahead, not_and,
      not_lt]
    exact ⟨fun all entry known isPid kept pre => (all entry known isPid kept pre).2,
      fun all entry known isPid kept pre => ⟨kept, all entry known isPid kept pre⟩⟩
  · -- A reading by the cut-off is also by the cut-off in milliseconds.
    intro entry _ known
    simp only [Bool.and_eq_true, decide_eq_true_eq] at known ⊢
    exact ⟨known.1, by omega⟩

end SqlHistory

def lateClock (_ : Nat) : DateTime := ⟨1700000000000000000, by omega⟩

def plain : WormConfig := ⟨false, false⟩

/-- Two messages of one id are written in the first nanoseconds of the epoch, and the first one is
deleted. The query at 1 sees the second one. -/
def earlyWrites : List SqlAction :=
  [.write quickClock [sqlMessage "p" 1 [7], sqlMessage "q" 1 [], sqlMessage "p" 2 [8]], .delete "p" 1]

theorem as_of_no_lookahead_early :
    ∃ history, Run (SqlHistory.step fun _ => []) (fun _ _ => True) (.start plain) earlyWrites history ∧
      SqlReadJournal.eventsAsOf id history.journal "p" 1 = .ok (history.asOf id "p" 1) ∧
      history.asOf id "p" 1 = [EventEnvelope.ofRepr (sqlMessage "p" 2 [8])] := by
  refine Run.executed rfl fun run => ⟨(SqlHistory.as_of_no_lookahead id run "p" (by decide)).mpr ?_, by decide +kernel⟩
  unfold SqlHistory.Ahead
  decide +kernel

/-- A message that is written 1.7e18 ns after the epoch is returned for a cut-off that is 18 minutes earlier. -/
theorem as_of_lookahead :
    ∃ history, Run (SqlHistory.step fun _ => []) (fun _ _ => True) (.start plain)
        [.write lateClock [sqlMessage "p" 1 [7]]] history ∧
      history.asOf id "p" 1699999000000000000 = [] ∧
      SqlReadJournal.eventsAsOf id history.journal "p" 1699999000000000000 =
        .ok [EventEnvelope.ofRepr (sqlMessage "p" 1 [7])] :=
  ⟨_, Run.of_foldlM rfl, by decide +kernel, by decide +kernel⟩

end Atomr.Persistence
