import Atomr.Library.Bytes
import Atomr.Library.KeyList
import Atomr.Library.OrderBy
import Atomr.Library.Outcome
import Atomr.Library.Runs
import Atomr.Library.Text
import Atomr.Persistence.ReadJournal
import Mathlib.Data.String.Basic

/-! The journal on two SQL tables.

A call is one transaction: its rows are all stored or none of them is. Statements fail
on a violated primary key only. Rows come in the order of an `ORDER BY`, and otherwise in the
order they were inserted in.
-/

namespace Atomr.Persistence

open Library Bytes List

/-- A reading of the clock, in nanoseconds since the Unix epoch. -/
structure DateTime where
  nanos : Int
  inRange : -2 ^ 63 ≤ nanos / 10 ^ 6 ∧ nanos / 10 ^ 6 < 2 ^ 63

namespace DateTime

def timestampMillis (time : DateTime) : Int64 := Int64.ofInt (time.nanos / 10 ^ 6)

theorem toInt_timestampMillis (time : DateTime) : time.timestampMillis.toInt = time.nanos / 10 ^ 6 :=
  Int64.toInt_ofInt_of_le time.inRange.1 time.inRange.2

end DateTime

structure EventRow where
  persistenceId : String
  sequenceNr : Nat
  payload : List UInt8
  manifest : String
  writerUuid : String
  deleted : Int
  createdAt : Int64
  prevHash : Option (List UInt8)
  rowHash : Option (List UInt8)
  systemTime : Option Int64
  validTime : Option Int64
  deriving DecidableEq

structure TagRow where
  persistenceId : String
  sequenceNr : Nat
  tag : String
  deriving DecidableEq, Repr

structure SqlTables where
  eventJournal : List EventRow
  eventTags : List TagRow

def uniqueViolation : JournalError := .backend "UNIQUE constraint failed"

namespace SqlTables

def empty : SqlTables := ⟨[], []⟩

variable (tables : SqlTables) (pid : String)

def rowsOf : List EventRow := tables.eventJournal.filter fun row => row.persistenceId = pid

/-- The primary key is the id with the number. -/
def insertEvent (row : EventRow) : Except JournalError SqlTables :=
  if tables.eventJournal.any fun held => held.persistenceId = row.persistenceId && held.sequenceNr = row.sequenceNr then
    .error uniqueViolation
  else .ok { tables with eventJournal := tables.eventJournal ++ [row] }

/-- The primary key is the whole row. -/
def insertTag (row : TagRow) : Except JournalError SqlTables :=
  if row ∈ tables.eventTags then .error uniqueViolation
  else .ok { tables with eventTags := tables.eventTags ++ [row] }

def maxSequenceNr : Option Nat := ((tables.rowsOf pid).map EventRow.sequenceNr).max?

def lastRowHash : List UInt8 :=
  ((orderByDesc EventRow.sequenceNr (tables.rowsOf pid)).head?.bind EventRow.rowHash).getD []

end SqlTables

structure WormConfig where
  hashChain : Bool
  denyUpdateDelete : Bool
  deriving DecidableEq, Repr

def computeRowHash (sha256 : List UInt8 → List UInt8) (prevHash : List UInt8) (persistenceId : String)
    (sequenceNr : Nat) (payload : List UInt8) (createdAt : Int64) : List UInt8 :=
  sha256 (prevHash ++ Text.utf8 persistenceId ++ littleEndian 8 sequenceNr ++ payload ++
    littleEndian 8 createdAt.toUInt64.toNat)

/-- The first tag that gives a valid time. -/
def parseValidTime (tags : List String) : Option Int64 :=
  tags.findSome? fun tag =>
    ((Text.stripPrefix "valid_time:" tag).bind fun rest => Text.parseSigned (2 ^ 63) rest.toList).map Int64.ofInt

structure SqlJournal where
  tables : SqlTables
  worm : WormConfig

section Writing
variable (sha256 : List UInt8 → List UInt8) (worm : WormConfig)

def newRow (now : DateTime) (prevHash : List UInt8) (msg : PersistentRepr) : EventRow :=
  let createdAt := now.timestampMillis
  { persistenceId := msg.persistenceId
    sequenceNr := msg.sequenceNr
    payload := msg.payload
    manifest := msg.manifest
    writerUuid := msg.writerUuid
    deleted := 0
    createdAt
    prevHash := if worm.hashChain && !prevHash.isEmpty then some prevHash else none
    rowHash :=
      if worm.hashChain then some (computeRowHash sha256 prevHash msg.persistenceId msg.sequenceNr msg.payload createdAt)
      else none
    systemTime := some createdAt
    validTime := parseValidTime msg.tags }

def tagRows (msg : PersistentRepr) : List TagRow := msg.tags.map fun tag => ⟨msg.persistenceId, msg.sequenceNr, tag⟩

/-- One message: its row, then the rows of its tags. The running hash is that of the row. -/
def insertMessage (now : DateTime) (prevHash : List UInt8) (tables : SqlTables) (msg : PersistentRepr) :
    Except JournalError (SqlTables × List UInt8) := do
  let row := newRow sha256 worm now prevHash msg
  let tables ← tables.insertEvent row
  let tables ← (tagRows msg).foldlM SqlTables.insertTag tables
  return (tables, row.rowHash.getD prevHash)

/-- The messages of one id; the clock is read once for each of them. -/
def insertBatch (clock : Nat → DateTime) :
    (expected tick : Nat) → (prevHash : List UInt8) → SqlTables → List PersistentRepr → Except JournalError SqlTables
  | _, _, _, tables, [] => .ok tables
  | expected, tick, prevHash, tables, msg :: rest =>
    if msg.sequenceNr ≠ expected then .error (.sequenceOutOfOrder expected msg.sequenceNr)
    else do
      let (tables, prevHash) ← insertMessage sha256 worm (clock tick) prevHash tables msg
      insertBatch clock (expected + 1) (tick + 1) prevHash tables rest

def startNr (tables : SqlTables) (pid : String) : Nat := ((tables.maxSequenceNr pid).map (· + 1)).getD 1

/-- The running hash goes on from the last row of earlier calls. -/
def seedHash (tables : SqlTables) (pid : String) : List UInt8 := if worm.hashChain then tables.lastRowHash pid else []

def insertGroups (clock : Nat → DateTime) :
    (tick : Nat) → SqlTables → List (String × List PersistentRepr) → Except JournalError SqlTables
  | _, tables, [] => .ok tables
  | tick, tables, (pid, batch) :: rest => do
    let tables ← insertBatch sha256 worm clock (startNr tables pid) tick (seedHash worm tables pid) tables batch
    insertGroups clock (tick + batch.length) tables rest

end Writing

namespace SqlJournal

variable (sha256 : List UInt8 → List UInt8)

def byPid (messages : List PersistentRepr) : List (String × List PersistentRepr) :=
  KeyList.group PersistentRepr.persistenceId messages

variable (journal : SqlJournal)

/-- An error drops the transaction and with it every row of the call. -/
def writeMessages (clock : Nat → DateTime) (messages : List PersistentRepr) : SqlJournal × Except JournalError Unit :=
  if messages.isEmpty then (journal, .ok ())
  else
    match insertGroups sha256 journal.worm clock 0 journal.tables (byPid messages) with
    | .error error => (journal, .error error)
    | .ok tables => ({ journal with tables }, .ok ())

/-- The cast of an unsigned to a signed 64-bit number. -/
def asI64 (n : Nat) : Int := (n : Int).bmod (2 ^ 64)

variable (pid : String)

def upTo (toSequenceNr : Nat) (row : EventRow) : Bool :=
  row.persistenceId = pid && (row.sequenceNr : Int) ≤ asI64 toSequenceNr

def markRow (toSequenceNr : Nat) (row : EventRow) : EventRow :=
  if upTo pid toSequenceNr row then { row with deleted := 1 } else row

def markRows (toSequenceNr : Nat) (tables : SqlTables) : SqlTables :=
  { tables with eventJournal := tables.eventJournal.map (markRow pid toSequenceNr) }

/-- The trigger of an append-only table fires for the first row that would be updated. -/
def deleteMessagesTo (persistenceId : String) (toSequenceNr : Nat) : SqlJournal × Except JournalError Unit :=
  if journal.worm.denyUpdateDelete && journal.tables.eventJournal.any (upTo persistenceId toSequenceNr) then
    (journal, .error (.backend "WORM: event_journal is append-only"))
  else ({ journal with tables := markRows persistenceId toSequenceNr journal.tables }, .ok ())

theorem writeMessages_cases (clock : Nat → DateTime) (msgs : List PersistentRepr) :
    (msgs = [] ∧ journal.writeMessages sha256 clock msgs = (journal, .ok ())) ∨
      (∃ err, journal.writeMessages sha256 clock msgs = (journal, .error err)) ∨
      ∃ tables, insertGroups sha256 journal.worm clock 0 journal.tables (byPid msgs) = .ok tables ∧
        journal.writeMessages sha256 clock msgs = ({ journal with tables }, .ok ()) := by
  unfold writeMessages
  split
  next none => exact .inl ⟨isEmpty_iff.mp none, rfl⟩
  · split
    next err _ => exact .inr (.inl ⟨err, rfl⟩)
    next tables ins => exact .inr (.inr ⟨tables, ins, rfl⟩)

theorem deleteMessagesTo_cases (toNr : Nat) :
    (∃ err, journal.deleteMessagesTo pid toNr = (journal, .error err)) ∨
      journal.deleteMessagesTo pid toNr =
        ({ journal with tables := markRows pid toNr journal.tables }, .ok ()) := by
  unfold deleteMessagesTo
  split
  · exact .inl ⟨_, rfl⟩
  · exact .inr rfl

end SqlJournal

/-- A message that was stored, with the reading of the clock it was stored at. -/
structure Recorded where
  message : PersistentRepr
  reading : DateTime
  deleted : Bool

variable (clock : Nat → DateTime) (tick : Nat)

def stamped (messages : List PersistentRepr) : List Recorded :=
  (messages.zipIdx tick).map fun entry => ⟨entry.1, clock entry.2, false⟩

theorem stamped_append (first second : List PersistentRepr) :
    stamped clock tick (first ++ second) = stamped clock tick first ++ stamped clock (tick + first.length) second := by
  simp [stamped, zipIdx_append]

theorem map_message_stamped (msgs : List PersistentRepr) :
    (stamped clock tick msgs).map Recorded.message = msgs := by
  simp [stamped, Function.comp_def]

section Appending
variable (sha256 : List UInt8 → List UInt8) (worm : WormConfig)

def chainRows : (prevHash : List UInt8) → List Recorded → List EventRow
  | _, [] => []
  | prevHash, entry :: rest =>
    let row := newRow sha256 worm entry.reading prevHash entry.message
    row :: chainRows (row.rowHash.getD prevHash) rest

/-- The messages of one id are appended with the next numbers. -/
structure Appended (tables : SqlTables) (pid : String) (entries : List Recorded) (after : SqlTables) : Prop where
  events : after.eventJournal =
    tables.eventJournal ++ chainRows sha256 worm (seedHash worm tables pid) entries
  tags : after.eventTags = tables.eventTags ++ entries.flatMap fun entry => tagRows entry.message
  numbers : entries.map (fun entry => entry.message.sequenceNr) = List.range' (startNr tables pid) entries.length
  ids : ∀ entry ∈ entries, entry.message.persistenceId = pid ∧ entry.deleted = false

variable {sha256 worm} {post ts : SqlTables}

theorem insertTags_ok {rows : List TagRow} (ins : rows.foldlM SqlTables.insertTag ts = .ok post) :
    post = { ts with eventTags := ts.eventTags ++ rows } := by
  induction rows generalizing ts with
  | nil =>
    cases ins
    simp
  | cons r rest ih =>
    rw [foldlM_cons, Outcome.bind_eq_ok] at ins
    obtain ⟨next, first, later⟩ := ins
    unfold SqlTables.insertTag at first
    split at first
    · cases first
    · cases first
      rw [ih later]
      simp

variable {prevHash : List UInt8} {clock : Nat → DateTime} {tick : Nat}

theorem insertMessage_ok {t : DateTime} {nextHash : List UInt8} {m : PersistentRepr}
    (ins : insertMessage sha256 worm t prevHash ts m = .ok (post, nextHash)) :
    post = ⟨ts.eventJournal ++ [newRow sha256 worm t prevHash m], ts.eventTags ++ tagRows m⟩ ∧
      nextHash = (newRow sha256 worm t prevHash m).rowHash.getD prevHash := by
  obtain ⟨withRow, first, ins⟩ := Outcome.bind_eq_ok.mp ins
  obtain ⟨withTags, second, ins⟩ := Outcome.bind_eq_ok.mp ins
  cases ins
  unfold SqlTables.insertEvent at first
  split at first
  · cases first
  · cases first
    exact ⟨insertTags_ok second, rfl⟩

theorem insertBatch_ok {exp : Nat} {bt : List PersistentRepr}
    (ins : insertBatch sha256 worm clock exp tick prevHash ts bt = .ok post) :
    post.eventJournal = ts.eventJournal ++ chainRows sha256 worm prevHash (stamped clock tick bt) ∧
      post.eventTags = ts.eventTags ++ (stamped clock tick bt).flatMap (fun e => tagRows e.message) ∧
      bt.map PersistentRepr.sequenceNr = List.range' exp bt.length := by
  induction bt generalizing exp tick prevHash ts with
  | nil =>
    cases ins
    simp [stamped, chainRows]
  | cons m rest ih =>
    unfold insertBatch at ins
    split at ins
    · cases ins
    next inOrder =>
      obtain ⟨⟨next, nextHash⟩, first, later⟩ := Outcome.bind_eq_ok.mp ins
      obtain ⟨rfl, rfl⟩ := insertMessage_ok first
      obtain ⟨events, tags, nums⟩ := ih later
      refine ⟨?_, ?_, ?_⟩
      · rw [events, append_assoc]
        rfl
      · rw [tags, append_assoc]
        rfl
      · rw [map_cons, nums, length_cons, List.range'_succ, not_not.mp inOrder]

/-- What holds of the tables and of what was stored in them, and is kept when the messages of one
id are appended, is kept by a call that succeeds. -/
theorem insertGroups_invariant {Inv : SqlTables → List Recorded → Prop}
    (step : ∀ ts log pid es post, Inv ts log → Appended sha256 worm ts pid es post →
      Inv post (log ++ es)) {groups : List (String × List PersistentRepr)}
    (keyed : ∀ group ∈ groups, ∀ m ∈ group.2, m.persistenceId = group.1) {log : List Recorded}
    (ins : insertGroups sha256 worm clock tick ts groups = .ok post) (start : Inv ts log) :
    Inv post (log ++ stamped clock tick (groups.flatMap Prod.snd)) := by
  induction groups generalizing tick ts log with
  | nil =>
    cases ins
    simpa [stamped] using start
  | cons group rest ih =>
    obtain ⟨pid, bt⟩ := group
    obtain ⟨next, first, later⟩ := Outcome.bind_eq_ok.mp ins
    obtain ⟨events, tags, nums⟩ := insertBatch_ok first
    have app : Appended sha256 worm ts pid (stamped clock tick bt) next := by
      refine ⟨events, tags, ?_, fun e mem => ?_⟩
      · have msgs := congrArg (List.map PersistentRepr.sequenceNr) (map_message_stamped clock tick bt)
        rw [map_map] at msgs
        have lengths := congrArg List.length (map_message_stamped clock tick bt)
        rw [length_map] at lengths
        rw [lengths]
        exact msgs.trans nums
      · obtain ⟨indexed, found, rfl⟩ := mem_map.mp mem
        exact ⟨keyed (pid, bt) mem_cons_self _ (fst_mem_of_mem_zipIdx found), rfl⟩
    rw [flatMap_cons, stamped_append, ← append_assoc]
    exact ih (fun group mem => keyed group (mem_cons_of_mem _ mem)) later (step _ _ _ _ _ start app)

end Appending

structure SqlHistory where
  journal : SqlJournal
  log : List Recorded

inductive SqlAction where
  | write (clock : Nat → DateTime) (messages : List PersistentRepr)
  | delete (persistenceId : String) (toSequenceNr : Nat)

namespace SqlHistory

def start (worm : WormConfig) : SqlHistory := ⟨⟨.empty, worm⟩, []⟩

def recordings (clock : Nat → DateTime) (messages : List PersistentRepr) : List Recorded :=
  stamped clock 0 ((SqlJournal.byPid messages).flatMap Prod.snd)

def markDeleted (pid : String) (toSequenceNr : Nat) (entry : Recorded) : Recorded :=
  if entry.message.persistenceId = pid ∧ (entry.message.sequenceNr : Int) ≤ SqlJournal.asI64 toSequenceNr then
    { entry with deleted := true }
  else entry

def step (sha256 : List UInt8 → List UInt8) (history : SqlHistory) : SqlAction → Option SqlHistory
  | .write clock messages =>
    match history.journal.writeMessages sha256 clock messages with
    | (journal, .ok ()) => some ⟨journal, history.log ++ recordings clock messages⟩
    | (journal, .error _) => some ⟨journal, history.log⟩
  | .delete pid toSequenceNr =>
    match history.journal.deleteMessagesTo pid toSequenceNr with
    | (journal, .ok ()) => some ⟨journal, history.log.map (markDeleted pid toSequenceNr)⟩
    | (journal, .error _) => some ⟨journal, history.log⟩

/-- What is kept by appending the messages of one id and by marking rows holds in every history. -/
theorem run_invariant {sha256 : List UInt8 → List UInt8} {guard : SqlHistory → SqlAction → Prop} {worm : WormConfig}
    {acts : List SqlAction} {hist : SqlHistory} {Inv : SqlTables → List Recorded → Prop}
    (empty : Inv .empty [])
    (append : ∀ ts log pid es post, Inv ts log → Appended sha256 worm ts pid es post →
      Inv post (log ++ es))
    (mark : ∀ ts log pid toNr, Inv ts log →
      Inv (SqlJournal.markRows pid toNr ts) (log.map (markDeleted pid toNr)))
    (run : Run (step sha256) guard (start worm) acts hist) : Inv hist.journal.tables hist.log := by
  have kept := run.invariant
    (fun hist => hist.journal.worm = worm ∧ Inv hist.journal.tables hist.log) ?_ ⟨rfl, empty⟩
  · exact kept.2
  intro pre act post ⟨eq, holds⟩ _ taken
  cases act with
  | write clock msgs =>
    rcases pre.journal.writeMessages_cases sha256 clock msgs with
      ⟨rfl, res⟩ | ⟨err, res⟩ | ⟨ts, ins, res⟩ <;> rw [step, res] at taken <;> cases taken
    · exact ⟨eq, (append_nil pre.log).symm ▸ holds⟩
    · exact ⟨eq, holds⟩
    · refine ⟨eq, insertGroups_invariant append (fun group mem m => ?_) (eq ▸ ins) holds⟩
      exact KeyList.key_of_mem_group _ mem
  | delete pid toNr =>
    rcases pre.journal.deleteMessagesTo_cases pid toNr with ⟨err, res⟩ | res <;>
      rw [step, res] at taken <;> cases taken
    · exact ⟨eq, holds⟩
    · exact ⟨eq, mark _ _ _ _ holds⟩

end SqlHistory

def EventRow.unhashed (row : EventRow) : EventRow := { row with prevHash := none, rowHash := none }

def Recorded.row (entry : Recorded) : EventRow where
  persistenceId := entry.message.persistenceId
  sequenceNr := entry.message.sequenceNr
  payload := entry.message.payload
  manifest := entry.message.manifest
  writerUuid := entry.message.writerUuid
  deleted := if entry.deleted then 1 else 0
  createdAt := entry.reading.timestampMillis
  prevHash := none
  rowHash := none
  systemTime := some entry.reading.timestampMillis
  validTime := parseValidTime entry.message.tags

def logOf (log : List Recorded) (pid : String) : List Recorded :=
  log.filter fun entry => entry.message.persistenceId = pid

/-- Every stored message has its row and the rows of its tags, and the messages of an id are
numbered from one without gaps. -/
structure Stored (tables : SqlTables) (log : List Recorded) : Prop where
  events : tables.eventJournal.map EventRow.unhashed = log.map Recorded.row
  tags : tables.eventTags = log.flatMap fun entry => tagRows entry.message
  numbers : ∀ pid, (logOf log pid).map (fun entry => entry.message.sequenceNr) =
    List.range' 1 (logOf log pid).length

namespace Stored

variable {tables post : SqlTables} {log es : List Recorded} {sha : List UInt8 → List UInt8}
  {worm : WormConfig} {pid : String}

theorem empty : Stored .empty [] := ⟨rfl, rfl, fun _ => rfl⟩

variable (stored : Stored tables log)
include stored

theorem rowsOf_numbers (pid : String) :
    (tables.rowsOf pid).map EventRow.sequenceNr = List.range' 1 (tables.rowsOf pid).length := by
  have rows : (tables.rowsOf pid).map EventRow.unhashed = (logOf log pid).map Recorded.row := by
    have filt := congrArg (List.filter fun r => r.persistenceId = pid) stored.events
    rw [filter_map, filter_map] at filt
    exact filt
  have lengths := congrArg List.length rows
  rw [length_map, length_map] at lengths
  have nums := congrArg (List.map EventRow.sequenceNr) rows
  rw [map_map, map_map] at nums
  rw [lengths]
  exact nums.trans (stored.numbers pid)

theorem startNr_eq (pid : String) : startNr tables pid = (tables.rowsOf pid).length + 1 := by
  rw [startNr, SqlTables.maxSequenceNr, stored.rowsOf_numbers, max?_range']
  split
  next none => rw [none]; rfl
  · rfl

theorem increasing (pid : String) :
    (tables.rowsOf pid).Pairwise fun first second => first.sequenceNr < second.sequenceNr := by
  have sorted : ((tables.rowsOf pid).map EventRow.sequenceNr).Pairwise (· < ·) := by
    rw [stored.rowsOf_numbers]
    exact pairwise_lt_range'
  exact pairwise_map.mp sorted

theorem length_logOf (pid : String) : (logOf log pid).length = (tables.rowsOf pid).length := by
  have filt := congrArg (fun rows => (rows.filter fun r => r.persistenceId = pid).length) stored.events
  simp only [filter_map, length_map] at filt
  exact filt.symm
omit stored

theorem unhashed_chainRows (fresh : ∀ e ∈ es, e.deleted = false) (prevHash : List UInt8) :
    (chainRows sha worm prevHash es).map EventRow.unhashed = es.map Recorded.row := by
  induction es generalizing prevHash with
  | nil => rfl
  | cons e rest ih =>
    obtain ⟨here, later⟩ := forall_mem_cons.mp fresh
    rw [chainRows, map_cons, ih later]
    simp [newRow, EventRow.unhashed, Recorded.row, here]

theorem append (stored : Stored tables log) (app : Appended sha worm tables pid es post) : Stored post (log ++ es) where
  events := by
    rw [app.events, map_append, map_append, stored.events,
      unhashed_chainRows fun e mem => (app.ids e mem).2]
  tags := by rw [app.tags, stored.tags, flatMap_append]
  numbers other := by
    have split : logOf (log ++ es) other = logOf log other ++ logOf es other := filter_append ..
    rw [split, map_append, stored.numbers, length_append]
    by_cases eq : other = pid
    · have all : logOf es other = es :=
        filter_eq_self.mpr fun e mem => by simp [(app.ids e mem).1, eq]
      rw [all, app.numbers, stored.startNr_eq, ← stored.length_logOf, eq, Nat.add_comm, List.range'_append_1]
    · have none : logOf es other = [] :=
        filter_eq_nil_iff.mpr fun e mem => by simp [(app.ids e mem).1, Ne.symm eq]
      simp [none]

theorem mark (stored : Stored tables log) (pid : String) (toNr : Nat) :
    Stored (SqlJournal.markRows pid toNr tables) (log.map (SqlHistory.markDeleted pid toNr)) := by
  have m : ∀ e, (SqlHistory.markDeleted pid toNr e).message = e.message := by
    intro e
    unfold SqlHistory.markDeleted
    split <;> rfl
  refine ⟨?_, ?_, fun other => ?_⟩
  · -- Marking looks at the id and the number only, so it commutes with leaving out the hashes.
    have outside : EventRow.unhashed ∘ SqlJournal.markRow pid toNr =
        SqlJournal.markRow pid toNr ∘ EventRow.unhashed := by
      funext r
      have eq : SqlJournal.upTo pid toNr r.unhashed = SqlJournal.upTo pid toNr r := rfl
      simp only [Function.comp, SqlJournal.markRow, eq]
      split <;> rfl
    have hi : SqlJournal.markRow pid toNr ∘ Recorded.row = Recorded.row ∘ SqlHistory.markDeleted pid toNr := by
      funext e
      have eq : SqlJournal.upTo pid toNr e.row = true ↔
          e.message.persistenceId = pid ∧ (e.message.sequenceNr : Int) ≤ SqlJournal.asI64 toNr := by
        rw [SqlJournal.upTo, Bool.and_eq_true, decide_eq_true_iff, decide_eq_true_iff]
        rfl
      simp only [Function.comp, SqlJournal.markRow, SqlHistory.markDeleted, eq]
      split <;> rfl
    rw [SqlJournal.markRows, map_map, map_map, outside, ← hi, ← map_map, stored.events,
      map_map]
  · rw [SqlJournal.markRows, stored.tags, flatMap_map]
    simp only [m]
  · have eq : logOf (log.map (SqlHistory.markDeleted pid toNr)) other =
        (logOf log other).map (SqlHistory.markDeleted pid toNr) := by
      simp only [logOf, filter_map, Function.comp_def, m]
    rw [eq, map_map, length_map, ← stored.numbers]
    simp only [Function.comp_def, m]

end Stored

theorem SqlHistory.stored {sha256 : List UInt8 → List UInt8} {guard : SqlHistory → SqlAction → Prop}
    {worm : WormConfig} {acts : List SqlAction} {hist : SqlHistory}
    (run : Run (SqlHistory.step sha256) guard (.start worm) acts hist) :
    Stored hist.journal.tables hist.log :=
  SqlHistory.run_invariant .empty (fun _ _ _ _ _ stored => stored.append)
    (fun _ _ pid toNr stored => stored.mark pid toNr) run

/-! Values for concrete histories. -/

def quickClock : DateTime := ⟨tick % 1000, by omega⟩

def sqlMessage (pid : String) (sequenceNr : Nat) (payload : List UInt8) : PersistentRepr :=
  ⟨pid, sequenceNr, payload, "m", "w", false, ["t"]⟩

end Atomr.Persistence
