import Atomr.Library.Runs
import Atomr.Persistence.ReadJournal

/-! Queries by tag, and a reader that goes on from the largest offset it was given.

The offset of an event is its number in its own stream, and one query goes over all streams.
The journal goes through them in the order of a hash map, which can differ from call to call.
-/

namespace Atomr.Persistence

open Library List Bool

def EventEnvelope.offset (env : EventEnvelope) : Nat := env.sequenceNr

inductive Offset where
  | noOffset
  | sequence (n : Nat)
  | timeBased (uuid : Nat)
  deriving DecidableEq, Repr

def Offset.asSequence : Offset → Option Nat
  | .noOffset => some 0
  | .sequence n => some n
  | .timeBased _ => none

namespace PersistentRepr

def tagged (tag : String) (r : PersistentRepr) : Bool := r.tags.any fun t => t = tag

def matchesTag (tag : String) (fromOffset : Nat) (r : PersistentRepr) : Bool :=
  !r.deleted && r.sequenceNr ≥ fromOffset && r.tagged tag

end PersistentRepr

namespace InMemoryJournal

def collectTagged (tag : String) (fromOffset max : Nat) : (out messages : List PersistentRepr) → List PersistentRepr
  | out, [] => out
  | out, r :: rest =>
    if r.deleted then collectTagged tag fromOffset max out rest
    else if r.sequenceNr < fromOffset then collectTagged tag fromOffset max out rest
    else if r.tagged tag then
      if (out ++ [r]).length ≥ max then out ++ [r] else collectTagged tag fromOffset max (out ++ [r]) rest
    else collectTagged tag fromOffset max out rest

/-- The streams are gone through in the order of the map. -/
def eventsByTag (journal : InMemoryJournal) (order : List String) (tag : String) (fromOffset max : Nat) :
    List PersistentRepr :=
  collectTagged tag fromOffset max [] (order.flatMap journal.stream)

theorem collectTagged_eq (tg : String) (fromOffset : Nat) {max : Nat} {out : List PersistentRepr}
    (room : out.length < max) (msgs : List PersistentRepr) :
    collectTagged tg fromOffset max out msgs =
      (out ++ msgs.filter (PersistentRepr.matchesTag tg fromOffset)).take max := by
  induction msgs generalizing out with
  | nil => simp [collectTagged, take_of_length_le (le_of_lt room)]
  | cons r rest ih =>
    have whole : (out ++ [r]).length = out.length + 1 := by simp
    by_cases sel : r.matchesTag tg fromOffset
    · have parts := sel
      simp only [PersistentRepr.matchesTag, and_eq_true, not_eq_true', decide_eq_true_eq] at parts
      simp only [collectTagged, parts.1.1, false_eq_true, if_false, not_lt.mpr parts.1.2, parts.2, if_true]
      have joined := append_cons out r (rest.filter (PersistentRepr.matchesTag tg fromOffset))
      rw [filter_cons_of_pos sel, joined]
      split
      next full => rw [take_append_of_le_length full, take_of_length_le (by omega)]
      next more => exact ih (by omega)
    · rw [filter_cons_of_neg sel, ← ih room]
      simp only [collectTagged]
      split
      · rfl
      next kept =>
        split
        · rfl
        next unread =>
          have untagged : r.tagged tg = false := by
            simpa [PersistentRepr.matchesTag, kept, not_lt.mp unread] using sel
          simp [untagged]

end InMemoryJournal

namespace SimpleReadJournal

/-- Go through the ids one by one, for a backend without an index of its own. -/
def scanByTag (journal : InMemoryJournal) (tag : String) (fromSeq : Nat) :
    List String → Except JournalError (List EventEnvelope)
  | [] => .ok []
  | id :: ids => do
    let reprs ← Journal.replayMessages journal id fromSeq (2 ^ 64 - 1) (2 ^ 64 - 1)
    let later ← scanByTag journal tag fromSeq ids
    .ok ((reprs.filter (PersistentRepr.tagged tag)).map EventEnvelope.ofRepr ++ later)

/-- The events with a tag. The map gives its streams in one order, and its ids in another. -/
def eventsByTag (journal : InMemoryJournal) (order listed : List String) (tag : String) (offset : Offset) :
    Except JournalError (List EventEnvelope) :=
  let fromSeq := offset.asSequence.getD 0
  let backendResults := journal.eventsByTag order tag fromSeq (2 ^ 64 - 1)
  if !backendResults.isEmpty then .ok (backendResults.map EventEnvelope.ofRepr)
  else scanByTag journal tag fromSeq listed

variable {j : InMemoryJournal}

theorem scanByTag_eq_nil {tg : String} {fromSeq : Nat} {ids : List String}
    (none : ∀ id ∈ ids, ∀ r ∈ j.stream id, r.matchesTag tg fromSeq = false) :
    scanByTag j tg fromSeq ids = .ok [] := by
  induction ids with
  | nil => rfl
  | cons id ids ih =>
    obtain ⟨first, later⟩ := forall_mem_cons.mp none
    have empty : (((j.stream id).filter fun r =>
        !r.deleted && r.sequenceNr ≥ fromSeq && r.sequenceNr ≤ 2 ^ 64 - 1).take (2 ^ 64 - 1)).filter
          (PersistentRepr.tagged tg) = [] := by
      refine filter_eq_nil_iff.mpr fun r taken hasTag => ?_
      obtain ⟨mem, kept⟩ := mem_filter.mp (mem_of_mem_take taken)
      simp_all [PersistentRepr.matchesTag]
    simp only [scanByTag, ih later]
    exact congrArg (fun found => Except.ok (found.map EventEnvelope.ofRepr ++ [])) empty

/-- A query gives the matching events of all streams, one stream after the other. -/
theorem eventsByTag_eq {order listed : List String} (eq : listed.Perm order)
    (room : (order.flatMap j.stream).length < 2 ^ 64 - 1) (tg : String) (off : Offset) :
    eventsByTag j order listed tg off =
      .ok (((order.flatMap j.stream).filter (PersistentRepr.matchesTag tg (off.asSequence.getD 0))).map
        EventEnvelope.ofRepr) := by
  have backend : j.eventsByTag order tg (off.asSequence.getD 0) (2 ^ 64 - 1) =
      (order.flatMap j.stream).filter (PersistentRepr.matchesTag tg (off.asSequence.getD 0)) := by
    rw [InMemoryJournal.eventsByTag, InMemoryJournal.collectTagged_eq _ _ (by decide)]
    exact take_of_length_le (le_trans (length_filter_le _ _) (le_of_lt room))
  simp only [eventsByTag, backend]
  split
  · rfl
  next empty =>
    -- No message matches, so the scan that follows finds none either.
    have none : (order.flatMap j.stream).filter (PersistentRepr.matchesTag tg (off.asSequence.getD 0)) = [] := by
      simpa using empty
    rw [none]
    refine scanByTag_eq_nil fun id mem r h => ?_
    have hp : r ∈ order.flatMap j.stream := mem_flatMap.mpr ⟨id, eq.mem_iff.mp mem, h⟩
    simpa using filter_eq_nil_iff.mp none r hp

end SimpleReadJournal

structure TagReader where
  journal : InMemoryJournal
  calls : List (List EventEnvelope)

inductive TagAction where
  | write (messages : List PersistentRepr)
  | delete (persistenceId : String) (toSequenceNr : Nat)
  | query (order listed : List String)
  deriving DecidableEq

namespace TagReader

def start : TagReader := ⟨.new, []⟩

def returned (reader : TagReader) : List EventEnvelope := reader.calls.flatten

def largest (reader : TagReader) : Nat := reader.returned.foldr (fun env held => max env.offset held) 0

/-- The first call has no offset, and a later one starts after the largest that was returned. -/
def offset (reader : TagReader) : Offset :=
  if reader.calls = [] then .noOffset else .sequence (1 + reader.largest)

/-- The memory has no room for so many messages that a query would be cut off. -/
def step (tag : String) (reader : TagReader) : TagAction → Option TagReader
  | .write messages => some { reader with journal := (reader.journal.writeMessages messages).1 }
  | .delete persistenceId toSequenceNr =>
    some { reader with journal := reader.journal.deleteMessagesTo persistenceId toSequenceNr }
  | .query order listed =>
    if order.Perm reader.journal.allPersistenceIds ∧ listed.Perm reader.journal.allPersistenceIds ∧
        (order.flatMap reader.journal.stream).length < 2 ^ 64 - 1 then
      (SimpleReadJournal.eventsByTag reader.journal order listed tag reader.offset).toOption.map fun found =>
        { reader with calls := reader.calls ++ [found] }
    else none

/-- What is appended with the tag has a larger number than all that was returned. At a call, events of
different ids that have not been returned have one number. -/
def Spaced (tag : String) (reader : TagReader) : TagAction → Prop
  | .write messages =>
    ∀ msg ∈ messages, msg.tagged tag → ∀ env ∈ reader.returned, env.offset < msg.sequenceNr
  | .delete _ _ => True
  | .query _ _ =>
    ∀ first ∈ reader.journal.allPersistenceIds, ∀ second ∈ reader.journal.allPersistenceIds, first ≠ second →
      ∀ msg ∈ reader.journal.stream first, ∀ other ∈ reader.journal.stream second,
        msg.matchesTag tag (reader.offset.asSequence.getD 0) → other.matchesTag tag (reader.offset.asSequence.getD 0) →
          msg.sequenceNr = other.sequenceNr

instance (tag : String) (reader : TagReader) (action : TagAction) : Decidable (Spaced tag reader action) := by
  unfold Spaced; split <;> infer_instance

variable {reader : TagReader} {num : Nat}

theorem largest_lt : reader.largest < num ↔ 0 < num ∧ ∀ env ∈ reader.returned, env.offset < num := by
  unfold largest
  induction reader.returned with
  | nil => simp
  | cons env rest ih =>
    rw [foldr_cons, Nat.max_lt, ih, forall_mem_cons]
    exact ⟨fun ⟨first, pos, later⟩ => ⟨pos, first, later⟩, fun ⟨pos, first, later⟩ => ⟨first, pos, later⟩⟩

theorem from_le (pos : 0 < num) :
    reader.offset.asSequence.getD 0 ≤ num ↔ ∀ env ∈ reader.returned, env.offset < num := by
  unfold offset
  split
  next first => simp [Offset.asSequence, returned, first]
  · have bound := @largest_lt reader num
    simp only [Offset.asSequence, Option.getD_some]
    constructor
    · exact fun low => (bound.mp (by omega)).2
    · intro beyond
      have above := bound.mpr ⟨pos, beyond⟩
      omega

def matching (reader : TagReader) (tag : String) (order : List String) : List PersistentRepr :=
  (order.flatMap reader.journal.stream).filter (PersistentRepr.matchesTag tag (reader.offset.asSequence.getD 0))

theorem step_query {tg : String} {post : TagReader} {order listed : List String}
    (taken : reader.step tg (.query order listed) = some post) :
    order.Perm reader.journal.allPersistenceIds ∧
      post = { reader with calls := reader.calls ++ [(reader.matching tg order).map EventEnvelope.ofRepr] } := by
  simp only [step] at taken
  split at taken
  next orders =>
    obtain ⟨ids, eq, room⟩ := orders
    rw [SimpleReadJournal.eventsByTag_eq (eq.trans ids.symm) room] at taken
    exact ⟨ids, (Option.some.inj taken).symm⟩
  · cases taken

end TagReader

structure StreamsInOrder (streams : String → List PersistentRepr) : Prop where
  numbered : ∀ id, NumberedStream (streams id)
  filed : ∀ id, ∀ msg ∈ streams id, msg.persistenceId = id

namespace StreamsInOrder

variable {streams : String → List PersistentRepr} (inOrder : StreamsInOrder streams)

include inOrder

theorem store {m : PersistentRepr}
    (acc : m.sequenceNr = InMemoryJournal.expected (streams m.persistenceId)) :
    StreamsInOrder (Function.update streams m.persistenceId (streams m.persistenceId ++ [m])) where
  numbered id := by
    rw [Function.update_apply]
    split
    · rw [NumberedStream.snoc_iff, acc]
      exact ⟨inOrder.numbered _, (inOrder.numbered _).expected⟩
    · exact inOrder.numbered id
  filed id h mem := by
    rw [Function.update_apply] at mem
    split at mem
    next own =>
      rcases mem_append.mp mem with old | isNew
      · exact (inOrder.filed _ h old).trans own.symm
      · rw [mem_singleton.mp isNew, own]
    · exact inOrder.filed id h mem

theorem envelopes_differ {order : List String} (nodup : order.Nodup) :
    (order.flatMap streams).Pairwise fun first second => EventEnvelope.ofRepr first ≠ EventEnvelope.ofRepr second := by
  refine pairwise_flatMap.mpr ⟨fun id _ => ?_, ?_⟩
  · refine (inOrder.numbered id).increasing.imp fun {first second} less eq => ?_
    exact Nat.ne_of_lt less (congrArg EventEnvelope.sequenceNr eq)
  · refine nodup.imp fun {id other} ne first mem second h eq => ne ?_
    rw [← inOrder.filed id first mem, ← inOrder.filed other second h]
    exact congrArg EventEnvelope.persistenceId eq

end StreamsInOrder

/-- Every event with the tag that is not deleted has been returned, or comes after all that was. -/
def Pending (tag : String) (returned : List EventEnvelope) (streams : String → List PersistentRepr) : Prop :=
  ∀ id, ∀ msg ∈ streams id, msg.deleted = false → msg.tagged tag →
    .ofRepr msg ∈ returned ∨ ∀ env ∈ returned, env.offset < msg.sequenceNr

def Ascending (found : List EventEnvelope) : Prop := found.Pairwise fun first second => first.offset ≤ second.offset

structure Resumes (tag : String) (reader : TagReader) : Prop where
  inOrder : StreamsInOrder reader.journal.stream
  pending : Pending tag reader.returned reader.journal.stream
  ascending : ∀ found ∈ reader.calls, Ascending found
  once : reader.returned.Nodup

namespace Resumes

variable {tg : String} {rd : TagReader} (resumes : Resumes tg rd)

theorem start (tg : String) : Resumes tg .start where
  inOrder := ⟨fun _ => .nil, fun _ _ mem => by cases mem⟩
  pending _ _ mem := by cases mem
  ascending _ mem := by cases mem
  once := nodup_nil

include resumes

theorem write {msgs : List PersistentRepr}
    (beyond : ∀ m ∈ msgs, m.tagged tg → ∀ env ∈ rd.returned, env.offset < m.sequenceNr) :
    Resumes tg { rd with journal := (rd.journal.writeMessages msgs).1 } := by
  obtain ⟨inOrder, pending⟩ := InMemoryJournal.writeMessages_invariant
    (fun streams => StreamsInOrder streams ∧ Pending tg rd.returned streams)
    (fun streams m sent ⟨inOrder, pending⟩ acc => by
      refine ⟨inOrder.store acc, fun id h mem live hasTag => ?_⟩
      rw [Function.update_apply] at mem
      split at mem
      · rcases mem_append.mp mem with old | isNew
        · exact pending _ h old live hasTag
        · rw [mem_singleton.mp isNew] at hasTag ⊢
          exact .inr (beyond m sent hasTag)
      · exact pending id h mem live hasTag)
    ⟨resumes.inOrder, resumes.pending⟩
  exact { resumes with inOrder, pending }

theorem delete (pid : String) (toNr : Nat) :
    Resumes tg { rd with journal := rd.journal.deleteMessagesTo pid toNr } := by
  have streams := rd.journal.stream_deleteMessagesTo pid
  refine { resumes with inOrder := ⟨fun id => ?_, fun id m mem => ?_⟩, pending := fun id m mem live hasTag => ?_ }
  · rw [streams]
    split
    · exact (resumes.inOrder.numbered id).delete toNr
    · exact resumes.inOrder.numbered id
  · rw [streams] at mem
    split at mem
    · obtain ⟨h, hp, rfl⟩ := mem_map.mp mem
      have filed := resumes.inOrder.filed id h hp
      split <;> exact filed
    · exact resumes.inOrder.filed id m mem
  · rw [streams] at mem
    split at mem
    · obtain ⟨h, hp, rfl⟩ := mem_map.mp mem
      -- A message that is still there was not touched.
      split at live
      · cases live
      next kept =>
        rw [if_neg kept] at hasTag ⊢
        exact resumes.pending id h hp live hasTag
    · exact resumes.pending id m mem live hasTag

variable {order : List String}

theorem mem_matching (ids : order.Perm rd.journal.allPersistenceIds) {m : PersistentRepr} :
    m ∈ rd.matching tg order ↔ ∃ id, m ∈ rd.journal.stream id ∧ m.deleted = false ∧ m.tagged tg ∧
      ∀ env ∈ rd.returned, env.offset < m.sequenceNr := by
  simp only [TagReader.matching, mem_filter, mem_flatMap, PersistentRepr.matchesTag, and_eq_true,
    not_eq_true', decide_eq_true_eq]
  constructor
  · rintro ⟨⟨id, known, mem⟩, ⟨live, low⟩, hasTag⟩
    have pos := (resumes.inOrder.numbered id).positive mem
    exact ⟨id, mem, live, hasTag, (TagReader.from_le pos).mp low⟩
  · rintro ⟨id, mem, live, hasTag, beyond⟩
    have pos := (resumes.inOrder.numbered id).positive mem
    exact ⟨⟨id, ids.mem_iff.mpr (InMemoryJournal.mem_allPersistenceIds mem), mem⟩,
      ⟨live, (TagReader.from_le pos).mpr beyond⟩, hasTag⟩

variable {listed : List String} {post : TagReader}

theorem ascending_matching (ids : order.Perm rd.journal.allPersistenceIds)
    (spaced : TagReader.Spaced tg rd (.query order listed)) :
    (rd.matching tg order).Pairwise fun first second => first.sequenceNr ≤ second.sequenceNr := by
  rw [TagReader.matching, filter_flatMap, pairwise_flatMap]
  have nodup : order.Nodup := ids.nodup_iff.mpr rd.journal.streams.keys_nodup
  refine ⟨fun id _ => ?_, ?_⟩
  · exact ((resumes.inOrder.numbered id).increasing.imp le_of_lt).filter _
  · refine nodup.imp_of_mem fun {id other} known otherKnown ne m sel h chosen => ?_
    obtain ⟨mem, first⟩ := mem_filter.mp sel
    obtain ⟨hp, second⟩ := mem_filter.mp chosen
    exact le_of_eq (spaced id (ids.mem_iff.mp known) other (ids.mem_iff.mp otherKnown) ne m mem h
      hp first second)

/-- A call returns the rest of the events in order, and none that was returned before. -/
theorem query (spaced : TagReader.Spaced tg rd (.query order listed))
    (taken : rd.step tg (.query order listed) = some post) :
    Resumes tg post ∧ ∀ id, ∀ m ∈ rd.journal.stream id, m.deleted = false → m.tagged tg →
      .ofRepr m ∈ post.returned := by
  obtain ⟨ids, rfl⟩ := TagReader.step_query taken
  have returned : TagReader.returned
      { rd with calls := rd.calls ++ [(rd.matching tg order).map EventEnvelope.ofRepr] } =
        rd.returned ++ (rd.matching tg order).map EventEnvelope.ofRepr := by
    simp [TagReader.returned]
  have full : ∀ id, ∀ m ∈ rd.journal.stream id, m.deleted = false → m.tagged tg →
      EventEnvelope.ofRepr m ∈ rd.returned ++ (rd.matching tg order).map EventEnvelope.ofRepr := by
    intro id m mem live hasTag
    rcases resumes.pending id m mem live hasTag with old | beyond
    · exact mem_append_left _ old
    · exact mem_append_right _ (mem_map_of_mem ((resumes.mem_matching ids).mpr ⟨id, mem, live, hasTag, beyond⟩))
  have nodup : order.Nodup := ids.nodup_iff.mpr rd.journal.streams.keys_nodup
  rw [returned]
  refine ⟨⟨resumes.inOrder, ?_, ?_, ?_⟩, full⟩
  · intro id m mem live hasTag
    rw [returned]
    exact .inl (full id m mem live hasTag)
  · refine forall_mem_append.mpr ⟨resumes.ascending, forall_mem_singleton.mpr ?_⟩
    exact pairwise_map.mpr (resumes.ascending_matching ids spaced)
  · rw [returned]
    refine nodup_append.mpr ⟨resumes.once, ?_, ?_⟩
    · exact pairwise_map.mpr ((resumes.inOrder.envelopes_differ nodup).filter _)
    · rintro env old found new rfl
      obtain ⟨m, sel, rfl⟩ := mem_map.mp new
      obtain ⟨_, _, _, _, beyond⟩ := (resumes.mem_matching ids).mp sel
      exact lt_irrefl _ (beyond _ old)

theorem step {act : TagAction} (spaced : TagReader.Spaced tg rd act)
    (taken : rd.step tg act = some post) : Resumes tg post := by
  cases act with
  | write msgs =>
    rw [← Option.some.inj taken]
    exact resumes.write spaced
  | delete pid toNr =>
    rw [← Option.some.inj taken]
    exact resumes.delete pid toNr
  | query order listed => exact (resumes.query spaced taken).1

end Resumes

theorem TagReader.returned_mono {tg : String} {rd post : TagReader} {act : TagAction} {env : EventEnvelope}
    (taken : rd.step tg act = some post) (mem : env ∈ rd.returned) : env ∈ post.returned := by
  cases act with
  | write msgs =>
    rw [← Option.some.inj taken]
    exact mem
  | delete pid toNr =>
    rw [← Option.some.inj taken]
    exact mem
  | query order listed =>
    rw [(step_query taken).2, returned, flatten_append]
    exact mem_append_left _ mem

/-- While the tagged events are spaced, each of them that a call could see has been returned exactly
once from that call on, and each call returns its events in the order of their offsets. -/
theorem tag_query_resumes {tag : String} {earlier later : List TagAction} {order listed : List String}
    {reader final : TagReader} (before : Run (TagReader.step tag) (TagReader.Spaced tag) .start earlier reader)
    (after : Run (TagReader.step tag) (TagReader.Spaced tag) reader (.query order listed :: later) final) :
    (∀ id, ∀ msg ∈ reader.journal.stream id, msg.deleted = false → tag ∈ msg.tags →
      final.returned.count (.ofRepr msg) = 1) ∧ ∀ found ∈ final.calls, Ascending found := by
  have kept : ∀ st act next, Resumes tag st → TagReader.Spaced tag st act →
      st.step tag act = some next → Resumes tag next := fun _ _ _ resumes spaced taken => resumes.step spaced taken
  have resumes := before.invariant (Resumes tag) kept (.start tag)
  cases after with
  | cons spaced called rest =>
    obtain ⟨answered, full⟩ := resumes.query spaced called
    have ends := rest.invariant (Resumes tag) kept answered
    refine ⟨fun id msg mem live hasTag => ?_, ends.ascending⟩
    have returned := full id msg mem live (by simpa [PersistentRepr.tagged] using hasTag)
    have stays := rest.invariant (fun st => EventEnvelope.ofRepr msg ∈ st.returned)
      (fun _ _ _ mem _ taken => TagReader.returned_mono taken mem) returned
    exact count_eq_one_of_mem ends.once stays

def eventWith (persistenceId : String) (sequenceNr : Nat) (tags : List String) : PersistentRepr :=
  ⟨persistenceId, sequenceNr, [], "event", "writer", false, tags⟩

def firstEvents : List PersistentRepr := [eventWith "a" 1 ["t"], eventWith "b" 1 ["t"]]

def firstReader : TagReader := ⟨(InMemoryJournal.new.writeMessages firstEvents).1, []⟩

def laterActions : List TagAction := [.write [eventWith "b" 2 ["t"]], .query ["b", "a"] ["a", "b"]]

theorem tag_query_resumes_spaced :
    ∃ final, Run (TagReader.step "t") (TagReader.Spaced "t") firstReader (.query ["a", "b"] ["a", "b"] :: laterActions)
        final ∧
      final.returned.map EventEnvelope.offset = [1, 1, 2] ∧
      final.returned.count (.ofRepr (eventWith "b" 1 ["t"])) = 1 := by
  have pre : Run (TagReader.step "t") (TagReader.Spaced "t") .start [.write firstEvents] firstReader :=
    Run.of_foldlM rfl
  have post : Run (TagReader.step "t") (TagReader.Spaced "t") firstReader
      (.query ["a", "b"] ["a", "b"] :: laterActions) _ := Run.of_foldlM rfl
  exact ⟨_, post, by decide +kernel,
    (tag_query_resumes pre post).1 "b" (eventWith "b" 1 ["t"]) (by decide +kernel) rfl (by decide)⟩

def interleavedStreams : List TagAction :=
  [.write [eventWith "a" 1 ["t"], eventWith "a" 2 ["t"], eventWith "b" 1 ["t"]], .query ["a", "b"] ["a", "b"]]

def lateStream : List TagAction :=
  [.write [eventWith "a" 1 ["t"], eventWith "a" 2 ["t"]], .query ["a"] ["a"], .write [eventWith "b" 1 ["t"]],
    .query ["a", "b"] ["a", "b"]]

/-- One call returns offsets out of order, and an event with a small number is never returned. -/
theorem tag_query_loses_late_stream :
    (∃ final, Run (TagReader.step "t") (fun _ _ => True) .start interleavedStreams final ∧
      final.calls.map (List.map EventEnvelope.offset) = [[1, 2, 1]]) ∧
    ∃ final, Run (TagReader.step "t") (fun _ _ => True) .start lateStream final ∧
      eventWith "b" 1 ["t"] ∈ final.journal.stream "b" ∧
      final.returned.count (.ofRepr (eventWith "b" 1 ["t"])) = 0 := by
  have first : Run (TagReader.step "t") (fun _ _ => True) .start interleavedStreams _ := Run.of_foldlM rfl
  have second : Run (TagReader.step "t") (fun _ _ => True) .start lateStream _ := Run.of_foldlM rfl
  exact ⟨⟨_, first, by decide +kernel⟩, _, second, by decide +kernel, by decide +kernel⟩

end Atomr.Persistence
