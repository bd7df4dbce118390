import Atomr.Patterns.Saga
import Atomr.Persistence.LatestMessage
import Atomr.Library.Text
import Mathlib.Data.List.Induction
import Mathlib.Data.Set.Insert

/-! The saga state store over a journal.

A store keeps each correlation id in a stream of its own, whose id is made from the name of
the saga and the correlation id. The last message of the stream is the state. A state that
is dropped leaves its messages behind, marked as deleted.
-/

namespace Atomr.Patterns

open Library Text Persistence List

/-- A store holds its journal together with others. -/
structure JournalSagaStateStore where
  journal : InMemoryJournal
  sagaName : String
  writerUuid : String

def sagaPidPrefix (sagaName : String) : String := "saga::" ++ sagaName ++ "::"

def sagaPid (sagaName correlationId : String) : String := sagaPidPrefix sagaName ++ correlationId

namespace JournalSagaStateStore

variable (store : JournalSagaStateStore) (correlationId : String)

def load : Option (List UInt8) := do
  let pid := sagaPid store.sagaName correlationId
  let highest ← (Journal.highestSequenceNr store.journal pid 0).toOption
  if highest = 0 then none
  else
    let reprs ← (Journal.replayMessages store.journal pid highest highest 1).toOption
    (reprs.getLast?.filter fun r => !r.deleted).map PersistentRepr.payload

/-- The write may be refused, and the store does not tell. -/
def save (payload : List UInt8) : JournalSagaStateStore :=
  let pid := sagaPid store.sagaName correlationId
  let nextSeq := (Journal.highestSequenceNr store.journal pid 0).toOption.getD 0 + 1
  let written := Journal.writeMessages store.journal [{
    persistenceId := pid
    sequenceNr := nextSeq
    payload
    manifest := "saga-state"
    writerUuid := store.writerUuid
    deleted := false
    tags := ["saga::" ++ store.sagaName] }]
  { store with journal := written.1 }

def delete : JournalSagaStateStore :=
  let pid := sagaPid store.sagaName correlationId
  match Journal.highestSequenceNr store.journal pid 0 with
  | .ok highest => if highest > 0 then { store with journal := store.journal.deleteMessagesTo pid highest } else store
  | .error _ => store

/-- Every stream of the saga is listed, also where the state was dropped. -/
def keys : List String := store.journal.allPersistenceIds.filterMap (stripPrefix (sagaPidPrefix store.sagaName))

instance : SagaStateStore JournalSagaStateStore where
  load := load
  save := save
  delete := delete
  keys := keys

end JournalSagaStateStore

/-- No name of the set, with the separator after it, begins another. -/
def NamesApart (names : Set String) : Prop :=
  ∀ first ∈ names, ∀ second ∈ names, (first ++ "::").toList <+: (second ++ "::").toList → first = second

variable {names : Set String}

theorem sagaPid_inj (apart : NamesApart names) {first second left right : String} (firstNamed : first ∈ names)
    (secondNamed : second ∈ names) (eq : sagaPid first left = sagaPid second right) :
    first = second ∧ left = right := by
  have texts : (first ++ "::").toList ++ left.toList = (second ++ "::").toList ++ right.toList := by
    simpa [sagaPid, sagaPidPrefix, ← String.toList_inj] using eq
  have named : first = second := by
    have firstBegins : (first ++ "::").toList <+: (second ++ "::").toList ++ right.toList := texts ▸ prefix_append _ _
    rcases prefix_or_prefix_of_prefix firstBegins (prefix_append _ _) with begins | begins
    · exact apart first firstNamed second secondNamed begins
    · exact (apart second secondNamed first firstNamed begins).symm
  subst named
  exact ⟨rfl, String.toList_inj.mp (append_cancel_left texts)⟩

inductive SagaCall where
  | save (name correlationId : String) (payload : List UInt8)
  | delete (name correlationId : String)
  deriving DecidableEq

namespace SagaCall

def name : SagaCall → String
  | .save name _ _ => name
  | .delete name _ => name

def correlationId : SagaCall → String
  | .save _ correlationId _ => correlationId
  | .delete _ correlationId => correlationId

def perform (writers : String → String) (journal : InMemoryJournal) : SagaCall → InMemoryJournal
  | .save name correlationId payload =>
    ((JournalSagaStateStore.mk journal name (writers name)).save correlationId payload).journal
  | .delete name correlationId => ((JournalSagaStateStore.mk journal name (writers name)).delete correlationId).journal

def outcome : SagaCall → Option (List UInt8)
  | .save _ _ payload => some payload
  | .delete _ _ => none

def record (name correlationId : String) (held : Option (List UInt8)) (call : SagaCall) : Option (List UInt8) :=
  if call.name = name ∧ call.correlationId = correlationId then call.outcome else held

/-- The payload of the last save that no delete followed. -/
def recorded (name correlationId : String) (calls : List SagaCall) : Option (List UInt8) :=
  calls.foldl (record name correlationId) none

end SagaCall

/-- The journal after some calls: the last messages are what a map would hold, and the streams are
those that were saved to. -/
structure Mirrors (names : Set String) (calls : List SagaCall) (journal : InMemoryJournal) : Prop where
  numbered : ∀ pid, NumberedStream (journal.stream pid)
  held : ∀ name ∈ names, ∀ corr,
    (latest (journal.stream (sagaPid name corr))).map PersistentRepr.payload = SagaCall.recorded name corr calls
  known : ∀ pid, pid ∈ journal.streams ↔ ∃ name corr payload, SagaCall.save name corr payload ∈ calls ∧
    pid = sagaPid name corr

section Calls
variable {ns : Set String} {cs : List SagaCall} {j : InMemoryJournal} {nm corr : String}

theorem Mirrors.nil (ns : Set String) : Mirrors ns [] .new where
  numbered _ := NumberedStream.nil
  held _ _ _ := rfl
  known pid := by
    simp only [not_mem_nil, false_and, exists_false, iff_false]
    exact AList.notMem_empty pid

theorem SagaCall.recorded_snoc (c : SagaCall) :
    recorded nm corr (cs ++ [c]) = record nm corr (recorded nm corr cs) c := by
  simp [recorded]

variable (mir : Mirrors ns cs j)
include mir

theorem Mirrors.update {post : InMemoryJournal} {c : SagaCall} {changed : List PersistentRepr}
    (apart : NamesApart ns) (named : c.name ∈ ns)
    (e : post.stream (sagaPid c.name c.correlationId) = changed)
    (others : ∀ pid, pid ≠ sagaPid c.name c.correlationId → post.stream pid = j.stream pid)
    (numbered : NumberedStream changed) (v : (latest changed).map PersistentRepr.payload = c.outcome)
    (known : ∀ pid, pid ∈ post.streams ↔ ∃ nm corr p, SagaCall.save nm corr p ∈ cs ++ [c] ∧
      pid = sagaPid nm corr) : Mirrors ns (cs ++ [c]) post where
  numbered pid := by
    by_cases eq : pid = sagaPid c.name c.correlationId
    · rwa [eq, e]
    · rw [others pid eq]
      exact mir.numbered pid
  held other mem corr := by
    rw [SagaCall.recorded_snoc, SagaCall.record]
    by_cases eq : sagaPid other corr = sagaPid c.name c.correlationId
    · obtain ⟨rfl, rfl⟩ := sagaPid_inj apart mem named eq
      rw [e, if_pos ⟨rfl, rfl⟩, v]
    · have ne : ¬ (c.name = other ∧ c.correlationId = corr) := by
        rintro ⟨rfl, rfl⟩
        exact eq rfl
      rw [others _ eq, if_neg ne, mir.held other mem corr]
  known := known

theorem Mirrors.save (apart : NamesApart ns) (named : nm ∈ ns) (payload : List UInt8)
    (writers : String → String) :
    Mirrors ns (cs ++ [.save nm corr payload]) ((SagaCall.save nm corr payload).perform writers j) := by
  obtain ⟨m, shape⟩ : ∃ m : PersistentRepr, m = {
      persistenceId := sagaPid nm corr, sequenceNr := j.highest (sagaPid nm corr) + 1, payload
      manifest := "saga-state", writerUuid := writers nm, deleted := false, tags := ["saga::" ++ nm] } := ⟨_, rfl⟩
  have performed : (SagaCall.save nm corr payload).perform writers j = (j.writeMessages [m]).1 := by
    rw [shape]
    rfl
  have id : m.persistenceId = sagaPid nm corr := by rw [shape]
  have next : m.sequenceNr = j.highest (sagaPid nm corr) + 1 := by rw [shape]
  have streams := InMemoryJournal.writeMessages_next id next
  have numbered := mir.numbered (sagaPid nm corr)
  rw [performed]
  refine mir.update apart named ((streams _).trans (if_pos rfl)) (fun pid other => (streams pid).trans (if_neg other))
    ?_ ?_ fun pid => ?_
  · exact NumberedStream.snoc_iff.mpr ⟨numbered, by rw [next, InMemoryJournal.highest_of_numbered numbered]; rfl⟩
  · rw [latest_snoc, shape]
    rfl
  · rw [InMemoryJournal.mem_streams_writeMessages, id, mir.known pid]
    constructor
    · rintro (rfl | ⟨saved, corr', payload', mem, eq⟩)
      · exact ⟨nm, corr, payload, by simp, rfl⟩
      · exact ⟨saved, corr', payload', mem_append_left _ mem, eq⟩
    · rintro ⟨saved, corr', payload', mem, eq⟩
      rcases mem_append.mp mem with old | new
      · exact .inr ⟨saved, corr', payload', old, eq⟩
      · cases mem_singleton.mp new
        exact .inl eq

theorem Mirrors.delete (apart : NamesApart ns) (named : nm ∈ ns) (writers : String → String) :
    Mirrors ns (cs ++ [.delete nm corr]) ((SagaCall.delete nm corr).perform writers j) := by
  have numbered := mir.numbered (sagaPid nm corr)
  have known (pid : String) : (∃ nm corr p, SagaCall.save nm corr p ∈ cs ∧ pid = sagaPid nm corr) ↔
      ∃ saved corr' p, SagaCall.save saved corr' p ∈ cs ++ [.delete nm corr] ∧
        pid = sagaPid saved corr' := by
    simp
  by_cases some : j.highest (sagaPid nm corr) > 0
  · have performed : (SagaCall.delete nm corr).perform writers j =
        j.deleteMessagesTo (sagaPid nm corr) (j.highest (sagaPid nm corr)) := by
      simp [SagaCall.perform, JournalSagaStateStore.delete, Journal.highestSequenceNr, some]
    obtain ⟨kept, gone⟩ := InMemoryJournal.deleteMessagesTo_highest numbered
    rw [performed]
    refine mir.update apart named rfl (fun pid other => ?_) kept (congrArg _ gone) fun pid => ?_
    · exact (InMemoryJournal.stream_deleteMessagesTo _ _ _ _).trans (if_neg other)
    · rw [InMemoryJournal.mem_streams_deleteMessagesTo, mir.known pid, known]
  · have performed : (SagaCall.delete nm corr).perform writers j = j := by
      simp [SagaCall.perform, JournalSagaStateStore.delete, Journal.highestSequenceNr, some]
    have empty : j.stream (sagaPid nm corr) = [] := by
      rw [InMemoryJournal.highest_of_numbered numbered] at some
      exact length_eq_zero_iff.mp (by omega)
    rw [performed]
    refine mir.update apart named empty (fun _ _ => rfl) NumberedStream.nil rfl fun pid => ?_
    rw [mir.known pid, known]

end Calls

theorem JournalSagaStateStore.load_eq {s : JournalSagaStateStore} {corr : String}
    (numbered : NumberedStream (s.journal.stream (sagaPid s.sagaName corr))) :
    s.load corr = (latest (s.journal.stream (sagaPid s.sagaName corr))).map PersistentRepr.payload := by
  have highest : (Journal.highestSequenceNr s.journal (sagaPid s.sagaName corr) 0).toOption =
      some (s.journal.highest (sagaPid s.sagaName corr)) := rfl
  have replayed : (Journal.replayMessages s.journal (sagaPid s.sagaName corr)
      (s.journal.highest (sagaPid s.sagaName corr)) (s.journal.highest (sagaPid s.sagaName corr))
      1).toOption = some (latest (s.journal.stream (sagaPid s.sagaName corr))).toList :=
    congrArg Except.toOption (InMemoryJournal.replayMessages_highest numbered)
  simp only [load, highest, Option.bind_eq_bind, Option.bind_some]
  split
  next zero =>
    rw [InMemoryJournal.latest_of_highest numbered zero]
    rfl
  · rw [replayed, Option.bind_some, latest_toList]

/-- The journal mirrors every sequence of calls on stores whose names are apart. -/
theorem mirrors_calls (apart : NamesApart names) (writers : String → String) {cs : List SagaCall}
    (named : ∀ c ∈ cs, c.name ∈ names) :
    Mirrors names cs (cs.foldl (SagaCall.perform writers) .new) := by
  induction cs using List.reverseRecOn with
  | nil => exact .nil names
  | append_singleton cs c ih =>
    obtain ⟨earlier, last⟩ := forall_mem_append.mp named
    have mirrors := ih earlier
    have mem := forall_mem_singleton.mp last
    rw [foldl_append]
    cases c with
    | save nm corr p => exact mirrors.save apart mem p writers
    | delete nm corr => exact mirrors.delete apart mem writers

/-- The stores over one journal behave like maps of their own, apart from the ids of dropped states,
which are still listed. -/
theorem saga_stores_are_maps {names : Set String} (apart : NamesApart names) (writers : String → String)
    (calls : List SagaCall) (named : ∀ call ∈ calls, call.name ∈ names) (name : String) (member : name ∈ names) :
    let store := JournalSagaStateStore.mk (calls.foldl (SagaCall.perform writers) .new) name (writers name)
    (∀ corr, store.load corr = SagaCall.recorded name corr calls) ∧
      store.keys.Nodup ∧ ∀ corr, corr ∈ store.keys ↔ ∃ payload, SagaCall.save name corr payload ∈ calls := by
  have mirrors := mirrors_calls apart writers named
  intro store
  refine ⟨fun corr => ?_, ?_, fun corr => ?_⟩
  · rw [JournalSagaStateStore.load_eq (mirrors.numbered _)]
    exact mirrors.held name member corr
  · refine List.Nodup.filterMap (fun first second rest atFirst atSecond => ?_) store.journal.streams.keys_nodup
    exact (stripPrefix_eq_some.mp atFirst).trans (stripPrefix_eq_some.mp atSecond).symm
  · have listed : corr ∈ store.keys ↔ sagaPid name corr ∈ store.journal.streams := by
      simp only [JournalSagaStateStore.keys, mem_filterMap, stripPrefix_eq_some]
      constructor
      · rintro ⟨pid, known, rfl⟩
        exact known
      · exact fun known => ⟨_, known, rfl⟩
    rw [listed, mirrors.known]
    constructor
    · rintro ⟨saved, corr', payload, call, eq⟩
      obtain ⟨rfl, rfl⟩ := sagaPid_inj apart member (named _ call) eq
      exact ⟨payload, call⟩
    · rintro ⟨payload, call⟩
      exact ⟨name, corr, payload, call, rfl⟩

def orderCalls : List SagaCall :=
  [.save "orders" "7" [1], .save "refunds" "7" [2], .delete "orders" "7", .save "orders" "8" [3], .save "orders" "7" [4]]

theorem saga_stores_are_maps_orders :
    let store := JournalSagaStateStore.mk (orderCalls.foldl (SagaCall.perform id) .new) "orders" "orders"
    store.load "7" = some [4] ∧ ("7" ∈ store.keys ↔ ∃ payload, SagaCall.save "orders" "7" payload ∈ orderCalls) := by
  have apart : NamesApart {"orders", "refunds"} := by
    rintro first (rfl | rfl) second (rfl | rfl) begins
    · rfl
    · exact absurd begins (by decide)
    · exact absurd begins (by decide)
    · rfl
  have maps := saga_stores_are_maps apart id orderCalls (by simp [orderCalls, SagaCall.name]) "orders" (by simp)
  exact ⟨maps.1 "7", maps.2.2 "7"⟩

/-- The correlation id of one saga reads as the end of another's name, and an id whose state was
dropped is still listed. -/
theorem saga_stores_overlap :
    (JournalSagaStateStore.mk ([SagaCall.save "a" "b::c" [1]].foldl (SagaCall.perform id) .new) "a::b" "w").load "c" =
        some [1] ∧
      SagaCall.recorded "a::b" "c" [.save "a" "b::c" [1]] = none ∧
      (let store := JournalSagaStateStore.mk
        ([SagaCall.save "a" "c" [1], .delete "a" "c"].foldl (SagaCall.perform id) .new) "a" "w"
      store.load "c" = none ∧ store.keys = ["c"]) := by
  decide +kernel

end Atomr.Patterns
