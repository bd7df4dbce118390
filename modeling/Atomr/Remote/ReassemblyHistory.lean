import Atomr.Remote.Chunking
import Mathlib.Data.List.Induction

/-! Reassembly of arbitrary chunks.

Chunks may come from anywhere, with totals that disagree and indices that repeat, and an id may be used
again after its message was handed out. A record of the pushes says what the slots of a pending message
hold: for each index the first payload that was taken since the message was last absent.
-/

namespace Atomr.Remote

open Library List Option

structure PushRecord where
  before : Reassembler
  chunk : Chunk
  answer : Except ChunkError (Option (List UInt8))

/-- A reassembler with the record of its pushes, which it does not read. -/
structure PushLog where
  reassembler : Reassembler
  past : List PushRecord

namespace PushLog

def start : PushLog := ⟨.new, []⟩

def push (log : PushLog) (now : Nat) (chunk : Chunk) : PushLog :=
  let (answer, next) := log.reassembler.push now chunk
  ⟨next, log.past ++ [⟨log.reassembler, chunk, answer⟩]⟩

def pushAll (arrivals : List (Nat × Chunk)) : PushLog := arrivals.foldl (fun log arrival => log.push arrival.1 arrival.2) start

end PushLog

/-- The pushes since a message was last absent. -/
def sinceAbsent (id : UInt64) (past : List PushRecord) : List PushRecord :=
  past.foldl (fun held record => if record.before.pending.lookup id = none then [record] else held ++ [record]) []

def PushRecord.Takes (id : UInt64) (index : Nat) (record : PushRecord) : Prop :=
  record.chunk.messageId = id ∧ record.chunk.chunkIdx.toNat = index ∧ record.answer.isOk
deriving Decidable

/-- The first payload that was taken for an index since the message was last absent. -/
def firstPayload (id : UInt64) (past : List PushRecord) (index : Nat) : Option (List UInt8) :=
  ((sinceAbsent id past).find? (PushRecord.Takes id index ·)).map fun record => record.chunk.payload

def PushRecord.payloadFor (id : UInt64) (index : Nat) (record : PushRecord) : Option (List UInt8) :=
  if record.Takes id index then some record.chunk.payload else none

theorem sinceAbsent_snoc (id : UInt64) (past : List PushRecord) (r : PushRecord) :
    sinceAbsent id (past ++ [r]) =
      if r.before.pending.lookup id = none then [r] else sinceAbsent id past ++ [r] := by
  rw [sinceAbsent, foldl_append, foldl_cons, foldl_nil, sinceAbsent]

theorem firstPayload_snoc (id : UInt64) (past : List PushRecord) (r : PushRecord) (i : Nat) :
    firstPayload id (past ++ [r]) i =
      if r.before.pending.lookup id = none then r.payloadFor id i
      else (firstPayload id past i).or (r.payloadFor id i) := by
  have single : ([r].find? (PushRecord.Takes id i ·)).map (fun r => r.chunk.payload) = r.payloadFor id i := by
    by_cases takes : r.Takes id i <;> simp [PushRecord.payloadFor]
  rw [firstPayload, sinceAbsent_snoc]
  split
  · exact single
  · rw [List.find?_append, map_or, single, firstPayload]

namespace Pending

/-- A slot keeps its payload, and an empty one takes that of its index. -/
theorem getElem?_fill {p : Pending} {i : Nat} {slot : Option (List UInt8)} (h : p.chunks[i]? = some slot)
    (idx : UInt32) (hi : idx < p.total) (payload : List UInt8) :
    (p.fill idx hi payload).chunks[i]? = some (slot.or (if idx.toNat = i then some payload else none)) := by
  have bound : i < p.chunks.length := (List.getElem?_eq_some_iff.mp h).1
  rw [chunks_fill]
  by_cases here : idx.toNat = i
  · rw [here, if_pos rfl, h]
    cases slot with
    | none => rw [if_pos rfl, List.getElem?_set_self bound, none_or]
    | some old => rw [if_neg (by simp), h, some_or]
  · rw [if_neg here, or_none]
    split
    · rw [List.getElem?_set_ne here, h]
    · exact h

theorem total_fill (p : Pending) (idx : UInt32) (hi : idx < p.total) (payload : List UInt8) :
    (p.fill idx hi payload).total = p.total := by
  simp only [fill]
  split <;> rfl

end Pending

namespace Reassembler

variable {r : Reassembler} {now : Nat} {chunk : Chunk}

def entryFor (r : Reassembler) (now : Nat) (chunk : Chunk) : Pending :=
  (r.pending.lookup chunk.messageId).getD (Pending.fresh chunk.totalChunks now)

/-- The ways a push can end. A chunk that is refused changes nothing. -/
inductive Pushed (r : Reassembler) (now : Nat) (chunk : Chunk) :
    Except ChunkError (Option (List UInt8)) × Reassembler → Prop where
  | refused (error : ChunkError) : Pushed r now chunk (.error error, r)
  | waits (inside : chunk.chunkIdx < (r.entryFor now chunk).total)
      (incomplete : ((r.entryFor now chunk).fill chunk.chunkIdx inside chunk.payload).received <
        ((r.entryFor now chunk).fill chunk.chunkIdx inside chunk.payload).total) :
      Pushed r now chunk (.ok none,
        ⟨r.pending.insert chunk.messageId ((r.entryFor now chunk).fill chunk.chunkIdx inside chunk.payload)⟩)
  | completes (inside : chunk.chunkIdx < (r.entryFor now chunk).total)
      (same : (r.entryFor now chunk).total = chunk.totalChunks)
      (complete : ¬ ((r.entryFor now chunk).fill chunk.chunkIdx inside chunk.payload).received <
        ((r.entryFor now chunk).fill chunk.chunkIdx inside chunk.payload).total) :
      Pushed r now chunk
        (.ok (some ((r.entryFor now chunk).fill chunk.chunkIdx inside chunk.payload).chunks.reduceOption.flatten),
          ⟨r.pending.erase chunk.messageId⟩)

theorem push_pushed (r : Reassembler) (t : Nat) (ch : Chunk) : Pushed r t ch (r.push t ch) := by
  by_cases invalid : ch.totalChunks = 0 ∨ ch.totalChunks ≤ ch.chunkIdx
  · rw [push, dif_pos invalid]
    exact .refused _
  · by_cases eq : (r.entryFor t ch).total = ch.totalChunks
    · have hi : ch.chunkIdx < (r.entryFor t ch).total :=
        eq ▸ UInt32.not_le.mp fun above => invalid (.inr above)
      have e : (r.pending.lookup ch.messageId).getD (Pending.fresh ch.totalChunks t) = r.entryFor t ch := rfl
      rw [push_eq e eq hi]
      dsimp only
      split
      next incomplete => exact .waits hi incomplete
      next full => exact .completes hi eq full
    · have mismatch : r.push t ch = (.error (.sizeMismatch ch.messageId (r.entryFor t ch).total
          ch.totalChunks), r) := by
        rw [push, dif_neg invalid]
        exact dif_neg eq
      rw [mismatch]
      exact .refused _

end Reassembler

/-- A slot holds the first payload that was taken for its index. -/
def Recorded (past : List PushRecord) (id : UInt64) (held : Pending) : Prop :=
  ∀ i < held.total.toNat, held.chunks[i]? = some (firstPayload id past i)

variable {log : PushLog} {held : Pending} {id : UInt64} {past : List PushRecord}

theorem recorded_fill {t : Nat} {ch : Chunk}
    (rec : ∀ h, log.reassembler.pending.lookup ch.messageId = some h →
      Recorded log.past ch.messageId h) (hi : ch.chunkIdx < (log.reassembler.entryFor t ch).total)
    (ans : Option (List UInt8)) :
    Recorded (log.past ++ [⟨log.reassembler, ch, .ok ans⟩]) ch.messageId
      ((log.reassembler.entryFor t ch).fill ch.chunkIdx hi ch.payload) := by
  intro i bound
  rw [Pending.total_fill] at bound
  have p : PushRecord.payloadFor ch.messageId i ⟨log.reassembler, ch, .ok ans⟩ =
      if ch.chunkIdx.toNat = i then some ch.payload else none := by
    simp [PushRecord.payloadFor, PushRecord.Takes, Except.toBool]
  rw [firstPayload_snoc, p]
  cases found : log.reassembler.pending.lookup ch.messageId with
  | none =>
    have e : log.reassembler.entryFor t ch = .fresh ch.totalChunks t := by
      rw [Reassembler.entryFor, found, getD_none]
    have empty : (log.reassembler.entryFor t ch).chunks[i]? = some none := by
      rw [e] at bound ⊢
      exact List.getElem?_replicate_of_lt bound
    rw [Pending.getElem?_fill empty, if_pos rfl, none_or]
  | some h =>
    have e : log.reassembler.entryFor t ch = h := by
      rw [Reassembler.entryFor, found, getD_some]
    have slot : (log.reassembler.entryFor t ch).chunks[i]? = some (firstPayload ch.messageId log.past i) := by
      rw [e] at bound ⊢
      exact rec h found i bound
    rw [Pending.getElem?_fill slot, if_neg (some_ne_none h)]

theorem Recorded.other (rec : Recorded past id held) {r : PushRecord}
    (hp : r.before.pending.lookup id = some held) (other : ∀ i, r.payloadFor id i = none) :
    Recorded (past ++ [r]) id held := by
  intro i bound
  have stays : r.before.pending.lookup id ≠ none := hp ▸ some_ne_none held
  rw [rec i bound, firstPayload_snoc, if_neg stays, other, or_none]

/-- Every pending message waits for a chunk, and its slots are as recorded. -/
def PushLog.Sound (log : PushLog) : Prop :=
  ∀ id held, log.reassembler.pending.lookup id = some held →
    held.received < held.total ∧ Recorded log.past id held

theorem PushLog.Sound.push (sound : log.Sound) (t : Nat) (ch : Chunk) : (log.push t ch).Sound := by
  unfold PushLog.push
  have pushed := log.reassembler.push_pushed t ch
  generalize log.reassembler.push t ch = out at pushed
  cases pushed with
  | refused err =>
    intro id h found
    obtain ⟨waiting, rec⟩ := sound id h found
    exact ⟨waiting, rec.other found fun i => if_neg fun takes => Bool.false_ne_true takes.2.2⟩
  | waits hi incomplete =>
    intro id h found
    simp only [Table.lookup_insert_if] at found
    split at found
    next eq =>
      subst eq
      cases found
      exact ⟨incomplete, recorded_fill (fun h found => (sound _ h found).2) hi none⟩
    next ne =>
      obtain ⟨waiting, rec⟩ := sound id h found
      exact ⟨waiting, rec.other found fun i => if_neg fun takes => ne takes.1.symm⟩
  | completes hi eq full =>
    intro id h found
    simp only [Table.lookup_erase_if] at found
    split at found
    · cases found
    next ne =>
      obtain ⟨waiting, rec⟩ := sound id h found
      exact ⟨waiting, rec.other found fun i => if_neg fun takes => ne takes.1.symm⟩

theorem PushLog.sound_pushAll (arrs : List (Nat × Chunk)) : (pushAll arrs).Sound := by
  induction arrs using List.reverseRecOn with
  | nil =>
    intro id h found
    cases found
  | append_singleton arrs arrival ih =>
    rw [pushAll, foldl_append]
    exact PushLog.Sound.push ih arrival.1 arrival.2

/-- The slots of a message that waits for nothing are filled, and make up the payload in the order of the indices. -/
theorem Recorded.joined (rec : Recorded past id held) (complete : ¬ held.received < held.total) :
    (∀ i < held.total.toNat, (firstPayload id past i).isSome) ∧
      held.chunks.reduceOption.flatten = ((List.range held.total.toNat).filterMap (firstPayload id past)).flatten := by
  have slots : held.chunks = (List.range held.total.toNat).map (firstPayload id past) := by
    apply ext_getElem?
    intro i
    by_cases bound : i < held.total.toNat
    · rw [rec i bound, List.getElem?_map, List.getElem?_range bound, map_some]
    · have past : held.chunks.length ≤ i := by
        rw [held.sized]
        exact Nat.le_of_not_lt bound
      rw [List.getElem?_eq_none past, List.getElem?_eq_none (by simpa using bound)]
  have full : ∀ slot ∈ held.chunks, slot.isSome := by
    rw [held.received_lt] at complete
    exact countP_eq_length.mp (Nat.le_antisymm countP_le_length (Nat.le_of_not_lt complete))
  rw [slots] at full ⊢
  refine ⟨fun i bound => full _ (mem_map_of_mem (mem_range.mpr bound)), ?_⟩
  exact congrArg List.flatten filterMap_map

/-- Whatever chunks came before: a pending message has a slot for each index and waits for some; a refused
chunk changes nothing; and a payload is made up of the first payload of each index since the message was
last absent, which it is again afterwards. -/
theorem reassembler_sound (arrivals : List (Nat × Chunk)) (now : Nat) (chunk : Chunk) :
    let log := PushLog.pushAll arrivals
    let next := log.push now chunk
    (∀ id held, log.reassembler.pending.lookup id = some held → held.received < held.total ∧
      held.chunks.length = held.total.toNat ∧ held.received.toNat = held.chunks.countP Option.isSome) ∧
    (∀ error, (log.reassembler.push now chunk).1 = .error error → next.reassembler = log.reassembler) ∧
    ∀ payload, (log.reassembler.push now chunk).1 = .ok (some payload) →
      (∀ i < chunk.totalChunks.toNat, (firstPayload chunk.messageId next.past i).isSome) ∧
      payload = ((List.range chunk.totalChunks.toNat).filterMap (firstPayload chunk.messageId next.past)).flatten ∧
      next.reassembler.pending = log.reassembler.pending.erase chunk.messageId := by
  intro log next
  have sound := PushLog.sound_pushAll arrivals
  refine ⟨fun id held found => ⟨(sound id held found).1, held.sized, held.counted⟩, fun error refused => ?_,
    fun payload handed => ?_⟩
  · have pushed := log.reassembler.push_pushed now chunk
    have eq : next.reassembler = (log.reassembler.push now chunk).2 := rfl
    rw [eq]
    generalize log.reassembler.push now chunk = outcome at pushed refused
    cases pushed with
    | refused => rfl
    | waits => cases refused
    | completes => cases refused
  · have pushed := log.reassembler.push_pushed now chunk
    have eq : next = ⟨(log.reassembler.push now chunk).2,
        log.past ++ [⟨log.reassembler, chunk, (log.reassembler.push now chunk).1⟩]⟩ := rfl
    rw [eq]
    generalize log.reassembler.push now chunk = outcome at pushed handed
    cases pushed with
    | refused => cases handed
    | waits => cases handed
    | completes inside total full =>
      have answer : payload = ((log.reassembler.entryFor now chunk).fill chunk.chunkIdx inside
          chunk.payload).chunks.reduceOption.flatten := by simpa using handed.symm
      have recorded := recorded_fill (fun held found => (sound _ held found).2) inside (some payload)
      obtain ⟨filled, joined⟩ := recorded.joined full
      rw [Pending.total_fill, total] at filled joined
      rw [← answer] at joined ⊢
      exact ⟨filled, joined, rfl⟩

end Atomr.Remote
