import Atomr.Library.Bytes
import Atomr.Library.Runs
import Atomr.Library.Text
import Atomr.Persistence.LatestMessage
import Mathlib.Data.List.Perm.Subperm

/-! The offset store of the outbox over a journal.

A save merges the offsets into the map of the store at once and spawns a task, which appends
the whole map to the stream of the outbox. The task asks the journal for the highest number
and writes with the next one, and other tasks may run between the two. A store that is
opened reads the last message of the stream.
-/

namespace Atomr.Patterns

open Library Bytes Text Persistence List

def offsetsPid (outboxName : String) : String := "outbox::" ++ outboxName ++ "::offsets"

namespace OffsetMap

def encodeEntry (entry : Sigma fun _ : String => UInt64) : List UInt8 :=
  littleEndian 4 (utf8 entry.1).length ++ utf8 entry.1 ++ littleEndian 8 entry.2.toNat

/-- The number of entries, and each entry with the length of its key. -/
def encode (map : Table String UInt64) : List UInt8 :=
  littleEndian 4 map.entries.length ++ map.entries.flatMap encodeEntry

def decodeEntries : (count : Nat) → (bytes : List UInt8) → (out : Table String UInt64) → Option (Table String UInt64)
  | 0, _, out => some out
  | count + 1, bytes, out =>
    if bytes.length < 4 then none
    else
      let kl := ofLittleEndian (bytes.take 4)
      let bytes := bytes.drop 4
      if bytes.length < kl + 8 then none
      else do
        let key ← ofUtf8 (bytes.take kl)
        let bytes := bytes.drop kl
        decodeEntries count (bytes.drop 8) (out.insert key (UInt64.ofNat (ofLittleEndian (bytes.take 8))))

def decode (bytes : List UInt8) : Option (Table String UInt64) :=
  if bytes.length < 4 then none else decodeEntries (ofLittleEndian (bytes.take 4)) (bytes.drop 4) ∅

structure Fits (keys : List String) : Prop where
  count : keys.length < 2 ^ 32
  lengths : ∀ key ∈ keys, (utf8 key).length < 2 ^ 32

instance (keys : List String) : Decidable (Fits keys) :=
  decidable_of_iff (keys.length < 2 ^ 32 ∧ ∀ key ∈ keys, (utf8 key).length < 2 ^ 32)
    ⟨fun both => ⟨both.1, both.2⟩, fun fits => ⟨fits.count, fits.lengths⟩⟩

theorem Fits.of_subset {keys more : List String} (fits : Fits more) (nodup : keys.Nodup) (subset : keys ⊆ more) :
    Fits keys where
  count := Nat.lt_of_le_of_lt (nodup.subperm subset).length_le fits.count
  lengths k mem := fits.lengths k (subset mem)

theorem decodeEntries_encodeEntry {e : Sigma fun _ : String => UInt64} (short : (utf8 e.1).length < 2 ^ 32)
    (count : Nat) (rest : List UInt8) (out : Table String UInt64) :
    decodeEntries (count + 1) (encodeEntry e ++ rest) out =
      decodeEntries count rest (out.insert e.1 e.2) := by
  have k : ofLittleEndian (littleEndian 4 (utf8 e.1).length) = (utf8 e.1).length := by
    rw [ofLittleEndian_littleEndian]
    exact Nat.mod_eq_of_lt short
  have v : UInt64.ofNat (ofLittleEndian (littleEndian 8 e.2.toNat)) = e.2 := by
    have small : e.2.toNat % 256 ^ 8 = e.2.toNat := Nat.mod_eq_of_lt e.2.toNat_lt
    rw [ofLittleEndian_littleEndian, small, UInt64.ofNat_toNat]
  simp [decodeEntries, encodeEntry, k, v, ofUtf8_utf8]

theorem decodeEntries_encode (es : List (Sigma fun _ : String => UInt64)) (out : Table String UInt64)
    (short : ∀ e ∈ es, (utf8 e.1).length < 2 ^ 32) :
    decodeEntries es.length (es.flatMap encodeEntry) out =
      some (es.foldl (fun acc e => acc.insert e.1 e.2) out) := by
  induction es generalizing out with
  | nil => rfl
  | cons e rest ih =>
    obtain ⟨first, later⟩ := forall_mem_cons.mp short
    rw [flatMap_cons, length_cons, decodeEntries_encodeEntry first, ih _ later, foldl_cons]

section Read

variable {map : Table String UInt64} (fits : Fits map.keys)
include fits

theorem Fits.read_count : ofLittleEndian (littleEndian 4 map.entries.length) = map.entries.length := by
  rw [ofLittleEndian_littleEndian]
  simpa [AList.keys, List.keys] using fits.count

theorem Fits.read_lengths : ∀ e ∈ map.entries, (utf8 e.1).length < 2 ^ 32 :=
  fun e mem => fits.lengths e.1 (mem_map_of_mem mem)

theorem decode_encode : ∃ read, decode (encode map) = some read ∧ ∀ k, read.lookup k = map.lookup k := by
  refine ⟨Table.mergeWith (fun _ off => off) ∅ map, ?_, fun k => ?_⟩
  · simp only [decode, encode, length_append, length_littleEndian, take_left', drop_left', fits.read_count]
    rw [if_neg (by omega), decodeEntries_encode _ _ fits.read_lengths]
    rfl
  · rw [Table.lookup_mergeWith]
    cases map.lookup k <;> rfl

end Read

end OffsetMap

structure JournalOffsetStore where
  journal : InMemoryJournal
  pid : String
  cache : Table String UInt64
  writerUuid : String

namespace JournalOffsetStore

def new (journal : InMemoryJournal) (outboxName writerUuid : String) : JournalOffsetStore :=
  let pid := offsetsPid outboxName
  let cache := match Journal.highestSequenceNr journal pid 0 with
    | .ok highest =>
      if highest > 0 then
        match Journal.replayMessages journal pid highest highest 1 with
        | .ok reprs => ((reprs.getLast?.filter fun r => !r.deleted).bind fun r => OffsetMap.decode r.payload).getD ∅
        | .error _ => ∅
      else ∅
    | .error _ => ∅
  { journal, pid, cache, writerUuid }

/-- Every offset that is given replaces the one held. -/
def merge (store : JournalOffsetStore) (offsets : Table String UInt64) : JournalOffsetStore :=
  { store with cache := store.cache.mergeWith (fun _ offset => offset) offsets }

/-- The write of a task. The journal may refuse it, and no one is told. -/
def write (store : JournalOffsetStore) (nextSeq : Nat) (payload : List UInt8) : JournalOffsetStore :=
  let written := Journal.writeMessages store.journal [{
    persistenceId := store.pid
    sequenceNr := nextSeq
    payload
    manifest := "outbox-offsets"
    writerUuid := store.writerUuid
    deleted := false
    tags := ["outbox-offsets"] }]
  { store with journal := written.1 }

end JournalOffsetStore

inductive SavePhase where
  | spawned
  /-- The highest number has been read, and the next one is used. -/
  | numbered (nextSeq : Nat)
  | finished
  deriving DecidableEq

structure SaveTask where
  payload : List UInt8
  phase : SavePhase
  deriving DecidableEq

structure OffsetSystem where
  store : JournalOffsetStore
  tasks : List SaveTask

/-- The tasks are numbered in the order of the saves. -/
inductive OffsetAction where
  | save (offsets : Table String UInt64)
  | read (index : Nat)
  | write (index : Nat)

namespace OffsetSystem

def start (journal : InMemoryJournal) (outboxName writerUuid : String) : OffsetSystem :=
  ⟨.new journal outboxName writerUuid, []⟩

variable (system : OffsetSystem)

def step : OffsetAction → Option OffsetSystem
  | .save offsets =>
    let store := system.store.merge offsets
    some ⟨store, system.tasks ++ [⟨OffsetMap.encode store.cache, .spawned⟩]⟩
  | .read index => do
    let task ← system.tasks[index]?
    match task.phase with
    | .spawned =>
      let nextSeq := (Journal.highestSequenceNr system.store.journal system.store.pid 0).toOption.getD 0 + 1
      some { system with tasks := system.tasks.set index { task with phase := .numbered nextSeq } }
    | _ => none
  | .write index => do
    let task ← system.tasks[index]?
    match task.phase with
    | .numbered nextSeq =>
      some ⟨system.store.write nextSeq task.payload, system.tasks.set index { task with phase := .finished }⟩
    | _ => none

def Finished : Prop := ∀ task ∈ system.tasks, task.phase = .finished
deriving Decidable

/-- A task starts when the tasks of all earlier saves have finished. -/
def InTurn : OffsetAction → Prop
  | .save offsets => OffsetMap.Fits (system.store.cache.keys ∪ offsets.keys)
  | .read index => ∀ task ∈ system.tasks.take index, task.phase = .finished
  | .write _ => True

instance (system : OffsetSystem) (action : OffsetAction) : Decidable (system.InTurn action) := by
  unfold InTurn; split <;> infer_instance

end OffsetSystem

def loaded (journal : InMemoryJournal) (pid : String) : Table String UInt64 :=
  ((latest (journal.stream pid)).bind fun r => OffsetMap.decode r.payload).getD ∅

theorem JournalOffsetStore.new_cache {j : InMemoryJournal} {outbox : String}
    (numbered : NumberedStream (j.stream (offsetsPid outbox))) (uuid : String) :
    (new j outbox uuid).cache = loaded j (offsetsPid outbox) := by
  have highest : Journal.highestSequenceNr j (offsetsPid outbox) 0 =
      .ok (j.highest (offsetsPid outbox)) := rfl
  have replayed : Journal.replayMessages j (offsetsPid outbox) (j.highest (offsetsPid outbox))
      (j.highest (offsetsPid outbox)) 1 = .ok (latest (j.stream (offsetsPid outbox))).toList :=
    InMemoryJournal.replayMessages_highest numbered
  simp only [new, highest]
  split
  · simp only [replayed, latest_toList, loaded]
  next zero =>
    rw [loaded, InMemoryJournal.latest_of_highest numbered (by omega)]
    rfl

theorem JournalOffsetStore.write_next {s : JournalOffsetStore}
    (numbered : NumberedStream (s.journal.stream s.pid)) (p : List UInt8) :
    loaded (s.write (s.journal.highest s.pid + 1) p).journal s.pid =
        (OffsetMap.decode p).getD ∅ ∧
      NumberedStream ((s.write (s.journal.highest s.pid + 1) p).journal.stream s.pid) := by
  have stream : (s.write (s.journal.highest s.pid + 1) p).journal.stream s.pid = _ :=
    (InMemoryJournal.writeMessages_next rfl rfl _).trans (if_pos rfl)
  constructor
  · rw [loaded, stream, latest_snoc]
    rfl
  · rw [stream, NumberedStream.snoc_iff, ← InMemoryJournal.highest_of_numbered numbered]
    exact ⟨numbered, rfl⟩

def lastSaved (first : Table String UInt64) (payloads : List (List UInt8)) : Table String UInt64 :=
  (payloads.getLast?.map fun payload => (OffsetMap.decode payload).getD ∅).getD first

/-- Only the first of the tasks may have read a number, and that number is next. -/
def Waiting (next : Nat) : List SaveTask → Prop
  | [] => True
  | task :: rest => (task.phase = .spawned ∨ task.phase = .numbered next) ∧ ∀ later ∈ rest, later.phase = .spawned

variable {waiting : List SaveTask}

theorem Waiting.unfinished {next : Nat} (waits : Waiting next waiting) {task : SaveTask} (mem : task ∈ waiting) :
    task.phase ≠ .finished := by
  cases waiting with
  | nil => cases mem
  | cons head rest =>
    rcases mem_cons.mp mem with rfl | later
    · rcases waits.1 with phase | phase <;> simp [phase]
    · simp [waits.2 task later]

theorem Waiting.of_spawned (next : Nat) (spn : ∀ task ∈ waiting, task.phase = .spawned) :
    Waiting next waiting := by
  cases waiting with
  | nil => trivial
  | cons head rest => exact ⟨.inl (spn head mem_cons_self), fun later mem => spn later (.tail _ mem)⟩

/-- The tasks finish in the order of the saves, and the journal holds the map of the last that finished. -/
structure TakesTurns (first : Table String UInt64) (pid : String) (system : OffsetSystem)
    (done waiting : List SaveTask) : Prop where
  own : system.store.pid = pid
  numbered : NumberedStream (system.store.journal.stream pid)
  tasks : system.tasks = done ++ waiting
  finished : ∀ task ∈ done, task.phase = .finished
  waits : Waiting (system.store.journal.highest pid + 1) waiting
  durable : loaded system.store.journal pid = lastSaved first (done.map SaveTask.payload)
  cached : ∀ key, (lastSaved first (system.tasks.map SaveTask.payload)).lookup key = system.store.cache.lookup key

namespace TakesTurns

variable {first : Table String UInt64} {pid : String} {sys post : OffsetSystem} {done waiting : List SaveTask}
  (turns : TakesTurns first pid sys done waiting)

include turns

variable {i : Nat} {task : SaveTask}

theorem index_of_unfinished (found : sys.tasks[i]? = some task) (unfinished : task.phase ≠ .finished) :
    ∃ place, i = done.length + place ∧ waiting[place]? = some task := by
  rw [turns.tasks] at found
  rcases Nat.lt_or_ge i done.length with early | late
  · rw [List.getElem?_append_left early] at found
    exact absurd (turns.finished task (mem_of_getElem? found)) unfinished
  · rw [List.getElem?_append_right late] at found
    exact ⟨i - done.length, by omega, found⟩

theorem save {offsets : Table String UInt64} (fits : OffsetMap.Fits (sys.store.cache.keys ∪ offsets.keys))
    (taken : sys.step (.save offsets) = some post) : ∃ waiting, TakesTurns first pid post done waiting := by
  have merged : OffsetMap.Fits (sys.store.merge offsets).cache.keys := by
    refine fits.of_subset (AList.keys_nodup _) fun k mem => ?_
    exact mem_union_iff.mpr ((Table.mem_mergeWith _ _ _ k).mp mem)
  obtain ⟨read, dec, eq⟩ := OffsetMap.decode_encode merged
  rw [← Option.some.inj taken]
  refine ⟨waiting ++ [⟨OffsetMap.encode (sys.store.merge offsets).cache, .spawned⟩], {
    own := turns.own
    numbered := turns.numbered
    tasks := by rw [turns.tasks, append_assoc]
    finished := turns.finished
    waits := ?_
    durable := turns.durable
    cached := ?_ }⟩
  · have waits := turns.waits
    cases waiting with
    | nil => exact ⟨.inl rfl, by simp⟩
    | cons head rest => exact ⟨waits.1, by simpa [or_imp, forall_and] using waits.2⟩
  · intro k
    simpa [lastSaved, dec] using eq k

theorem set_front {rest : List SaveTask} (front : waiting = task :: rest) (phase : SavePhase) :
    sys.tasks.set done.length { task with phase } = done ++ { task with phase } :: rest ∧
      (sys.tasks.set done.length { task with phase }).map SaveTask.payload = sys.tasks.map SaveTask.payload := by
  simp [turns.tasks, front]

theorem read (earlier : ∀ task ∈ sys.tasks.take i, task.phase = .finished)
    (taken : sys.step (.read i) = some post) : ∃ waiting, TakesTurns first pid post done waiting := by
  obtain ⟨task, found, taken⟩ := Option.bind_eq_some_iff.mp taken
  obtain rfl := turns.own
  split at taken
  next spn =>
    obtain ⟨place, rfl, waits⟩ := turns.index_of_unfinished found (by simp [spn])
    cases waiting with
    | nil => cases waits
    | cons head rest =>
      cases place with
      | succ place =>
        -- The task at the front has not finished, so a later one may not start.
        have ahead : head ∈ sys.tasks.take (done.length + (place + 1)) := by
          rw [turns.tasks, take_append]
          simp
        exact absurd (earlier head ahead) (turns.waits.unfinished mem_cons_self)
      | zero =>
        cases waits
        obtain ⟨tasks, ps⟩ := turns.set_front rfl (.numbered (sys.store.journal.highest sys.store.pid + 1))
        rw [← Option.some.inj taken]
        exact ⟨{ task with phase := .numbered (sys.store.journal.highest sys.store.pid + 1) } :: rest, {
          own := rfl
          numbered := turns.numbered
          tasks := tasks
          finished := turns.finished
          waits := ⟨.inr rfl, turns.waits.2⟩
          durable := turns.durable
          cached := fun k => (congrArg (fun h => (lastSaved first h).lookup k) ps).trans (turns.cached k) }⟩
  · cases taken

theorem write (taken : sys.step (.write i) = some post) :
    ∃ done waiting, TakesTurns first pid post done waiting := by
  obtain ⟨task, found, taken⟩ := Option.bind_eq_some_iff.mp taken
  obtain rfl := turns.own
  split at taken
  next nextSeq read =>
    obtain ⟨place, rfl, waits⟩ := turns.index_of_unfinished found (by simp [read])
    cases waiting with
    | nil => cases waits
    | cons head rest =>
      cases place with
      | succ place =>
        -- Behind the front no task has read a number.
        have spn := turns.waits.2 task (mem_of_getElem? waits)
        rw [read] at spn
        cases spn
      | zero =>
        cases waits
        have next : nextSeq = sys.store.journal.highest sys.store.pid + 1 := by
          rcases turns.waits.1 with spn | numbered
          · rw [read] at spn
            cases spn
          · rw [read] at numbered
            exact SavePhase.numbered.inj numbered
        obtain ⟨tasks, ps⟩ := turns.set_front rfl .finished
        obtain ⟨stored, kept⟩ := JournalOffsetStore.write_next turns.numbered task.payload
        rw [← Option.some.inj taken, next]
        exact ⟨done ++ [{ task with phase := .finished }], rest, {
          own := rfl
          numbered := kept
          tasks := by rw [append_assoc]; exact tasks
          finished := by simpa [or_imp, forall_and] using turns.finished
          waits := .of_spawned _ turns.waits.2
          durable := by rw [stored]; simp [lastSaved]
          cached := fun k => (congrArg (fun h => (lastSaved first h).lookup k) ps).trans (turns.cached k) }⟩
  · cases taken

theorem loads_cache (all : sys.Finished) (k : String) :
    (loaded sys.store.journal pid).lookup k = sys.store.cache.lookup k := by
  have none : waiting = [] := eq_nil_iff_forall_not_mem.mpr fun task mem =>
    turns.waits.unfinished mem (all task (turns.tasks ▸ mem_append_right _ mem))
  have tasks := turns.tasks
  rw [none, append_nil] at tasks
  rw [turns.durable, ← tasks]
  exact turns.cached k

end TakesTurns

/-- When the tasks take turns in the order of the saves and all have finished, a store that is opened
then has the map of the old one. -/
theorem reopened_store_has_cache {journal : InMemoryJournal} {outboxName writerUuid : String}
    (numbered : NumberedStream (journal.stream (offsetsPid outboxName))) {actions : List OffsetAction}
    {final : OffsetSystem}
    (run : Run OffsetSystem.step OffsetSystem.InTurn (.start journal outboxName writerUuid) actions final)
    (finished : final.Finished) (reopener key : String) :
    (JournalOffsetStore.new final.store.journal outboxName reopener).cache.lookup key =
      final.store.cache.lookup key := by
  obtain ⟨done, waiting, turns⟩ := run.invariant
    (fun sys => ∃ done waiting,
      TakesTurns (loaded journal (offsetsPid outboxName)) (offsetsPid outboxName) sys done waiting)
    (by
      rintro sys act next ⟨done, waiting, turns⟩ inTurn taken
      cases act with
      | save offsets => exact ⟨done, turns.save inTurn taken⟩
      | read index => exact ⟨done, turns.read inTurn taken⟩
      | write index => exact turns.write taken)
    ⟨[], [], {
      own := rfl
      numbered := numbered
      tasks := rfl
      finished := by simp
      waits := trivial
      durable := rfl
      cached := fun _ => by rw [OffsetSystem.start, JournalOffsetStore.new_cache numbered]; rfl }⟩
  rw [JournalOffsetStore.new_cache turns.numbered]
  exact turns.loads_cache finished key

def firstOffsets : Table String UInt64 := (∅ : Table String UInt64).insert "orders" 1

def laterOffsets : Table String UInt64 := (∅ : Table String UInt64).insert "orders" 2

def savesInTurn : List OffsetAction := [.save firstOffsets, .save laterOffsets, .read 0, .write 0, .read 1, .write 1]

def racingSaves : List OffsetAction := [.save firstOffsets, .save laterOffsets, .read 0, .read 1, .write 0, .write 1]

theorem reopened_store_has_cache_saves :
    ∃ final, Run OffsetSystem.step OffsetSystem.InTurn (.start .new "o" "w") savesInTurn final ∧ final.Finished ∧
      (JournalOffsetStore.new final.store.journal "o" "v").cache.lookup "orders" = final.store.cache.lookup "orders" ∧
      final.store.cache.lookup "orders" = some 2 := by
  have numbered : NumberedStream (InMemoryJournal.new.stream (offsetsPid "o")) := .nil
  exact Run.executed rfl fun run =>
    ⟨by decide +kernel, reopened_store_has_cache numbered run (by decide +kernel) "v" "orders", by decide +kernel⟩

/-- The second write is refused, and a new store reads the first map. -/
theorem racing_save_lost :
    ∃ final, Run OffsetSystem.step (fun _ _ => True) (.start .new "o" "w") racingSaves final ∧ final.Finished ∧
      (JournalOffsetStore.new final.store.journal "o" "v").cache.lookup "orders" = some 1 ∧
      final.store.cache.lookup "orders" = some 2 := by
  exact ⟨_, Run.of_foldlM rfl, by decide +kernel, by decide +kernel, by decide +kernel⟩

end Atomr.Patterns
