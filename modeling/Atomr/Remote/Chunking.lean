import Atomr.Library.Bytes
import Atomr.Library.Table

/-! Message chunking for payloads above the frame size.

The sender splits a payload into numbered chunks of one message id. The
receiver keeps one slot for each chunk of a message and hands the payload out
when the last slot is filled. A pending message carries the two facts its
code relies on, that its slots are as many as the announced total and that its
counter counts the filled ones.
-/

namespace Atomr.Remote

open Library Bytes

structure Chunk where
  messageId : UInt64
  chunkIdx : UInt32
  totalChunks : UInt32
  payload : List UInt8
  deriving DecidableEq, Repr

inductive ChunkError where
  | invalidIndex (idx total : UInt32)
  | sizeMismatch (messageId : UInt64) (previous now : UInt32)
  deriving DecidableEq, Repr

namespace Chunk

/-- A header of sixteen bytes, then the payload. -/
def toWire (chunk : Chunk) : List UInt8 :=
  littleEndian 8 chunk.messageId.toNat ++ littleEndian 4 chunk.chunkIdx.toNat
    ++ littleEndian 4 chunk.totalChunks.toNat ++ chunk.payload

def fromWire (bytes : List UInt8) : Option Chunk :=
  if bytes.length < 16 then none
  else some {
    messageId := UInt64.ofNat (ofLittleEndian (bytes.take 8))
    chunkIdx := UInt32.ofNat (ofLittleEndian ((bytes.drop 8).take 4))
    totalChunks := UInt32.ofNat (ofLittleEndian ((bytes.drop 12).take 4))
    payload := bytes.drop 16 }

theorem fromWire_toWire (ch : Chunk) : fromWire ch.toWire = some ch := by
  have long : ¬ ch.toWire.length < 16 := by
    simp [toWire]
    omega
  have idBytes : ch.toWire.take 8 = littleEndian 8 ch.messageId.toNat := by
    simp [toWire]
  have idxBytes : (ch.toWire.drop 8).take 4 = littleEndian 4 ch.chunkIdx.toNat := by
    simp [toWire]
  have totalBytes : (ch.toWire.drop 12).take 4 = littleEndian 4 ch.totalChunks.toNat := by
    simp [toWire, List.take_append, List.drop_append]
  have rest : ch.toWire.drop 16 = ch.payload := by
    exact List.drop_left' (by simp)
  have id : ch.messageId.toNat % 256 ^ 8 = ch.messageId.toNat := Nat.mod_eq_of_lt ch.messageId.toNat_lt
  have idx : ch.chunkIdx.toNat % 256 ^ 4 = ch.chunkIdx.toNat := Nat.mod_eq_of_lt ch.chunkIdx.toNat_lt
  have total : ch.totalChunks.toNat % 256 ^ 4 = ch.totalChunks.toNat := Nat.mod_eq_of_lt ch.totalChunks.toNat_lt
  simp only [fromWire, long, if_false, idBytes, idxBytes, totalBytes, rest, ofLittleEndian_littleEndian, id, idx,
    total, UInt64.ofNat_toNat, UInt32.ofNat_toNat]

end Chunk

structure Chunker where
  chunkSize : Nat
  positive : 1 ≤ chunkSize

def Chunker.split (c : Chunker) (messageId : UInt64) (payload : List UInt8) : List Chunk :=
  if payload.isEmpty then [⟨messageId, 0, 1, []⟩]
  else
    let total := divCeil payload.length c.chunkSize
    (pieces c.chunkSize payload).mapIdx fun i piece =>
      ⟨messageId, UInt32.ofNat i, UInt32.ofNat total, piece⟩

structure Pending where
  total : UInt32
  chunks : List (Option (List UInt8))
  received : UInt32
  startedAt : Nat
  sized : chunks.length = total.toNat
  counted : received.toNat = chunks.countP Option.isSome

namespace Pending

def fresh (total : UInt32) (now : Nat) : Pending where
  total := total
  chunks := List.replicate total.toNat none
  received := 0
  startedAt := now
  sized := List.length_replicate
  counted := by simp [List.countP_replicate]

/-- Fill an empty slot and count it; a filled slot keeps its first payload. -/
def fill (p : Pending) (idx : UInt32) (inside : idx < p.total) (payload : List UInt8) : Pending :=
  have bound : idx.toNat < p.chunks.length := p.sized ▸ UInt32.lt_iff_toNat_lt.mp inside
  if vacant : p.chunks[idx.toNat] = none then
    { p with
      chunks := p.chunks.set idx.toNat (some payload)
      received := p.received + 1
      sized := by rw [List.length_set, p.sized]
      counted := by
        -- The slot was empty, so the count stays within the total and the counter does not wrap.
        have room : p.chunks.countP Option.isSome < p.chunks.length := by
          refine Nat.lt_of_le_of_ne List.countP_le_length fun full => ?_
          have taken := List.countP_eq_length.mp full _ (List.getElem_mem bound)
          simp [vacant] at taken
        have small := p.total.toNat_lt
        rw [List.countP_set bound, vacant, UInt32.toNat_add, p.counted, Nat.mod_eq_of_lt]
        · simp
        · have one : UInt32.toNat 1 = 1 := rfl
          have sized := p.sized
          omega }
  else p

theorem chunks_fill (p : Pending) (idx : UInt32) (hi : idx < p.total) (payload : List UInt8) :
    (p.fill idx hi payload).chunks
      = if p.chunks[idx.toNat]? = some none then p.chunks.set idx.toNat (some payload) else p.chunks := by
  have bound : idx.toNat < p.chunks.length := p.sized ▸ UInt32.lt_iff_toNat_lt.mp hi
  simp only [fill, List.getElem?_eq_getElem bound, Option.some.injEq]
  split <;> rfl

theorem received_lt (p : Pending) : p.received < p.total ↔ p.chunks.countP Option.isSome < p.chunks.length := by
  rw [UInt32.lt_iff_toNat_lt, p.counted, p.sized]

end Pending

structure Reassembler where
  pending : Table UInt64 Pending

namespace Reassembler

def new : Reassembler := ⟨∅⟩

variable (r : Reassembler)

/-- Feed one chunk. The answer is a payload when the chunk completes its message. -/
def push (now : Nat) (chunk : Chunk) : Except ChunkError (Option (List UInt8)) × Reassembler :=
  if inside : chunk.totalChunks = 0 ∨ chunk.totalChunks ≤ chunk.chunkIdx then
    (.error (.invalidIndex chunk.chunkIdx chunk.totalChunks), r)
  else
    -- The first chunk of a message to arrive fixes its total.
    let entry := (r.pending.lookup chunk.messageId).getD (Pending.fresh chunk.totalChunks now)
    if same : entry.total = chunk.totalChunks then
      let filled := entry.fill chunk.chunkIdx
        (same ▸ UInt32.not_le.mp fun above => inside (Or.inr above)) chunk.payload
      if filled.received < filled.total then
        (.ok none, ⟨r.pending.insert chunk.messageId filled⟩)
      else (.ok (some filled.chunks.reduceOption.flatten), ⟨r.pending.erase chunk.messageId⟩)
    else (.error (.sizeMismatch chunk.messageId entry.total chunk.totalChunks), r)

theorem push_eq {r : Reassembler} {t : Nat} {ch : Chunk} {e : Pending}
    (h : (r.pending.lookup ch.messageId).getD (Pending.fresh ch.totalChunks t) = e)
    (eq : e.total = ch.totalChunks) (hi : ch.chunkIdx < e.total) :
    r.push t ch =
      let filled := e.fill ch.chunkIdx hi ch.payload
      if filled.received < filled.total then (.ok none, ⟨r.pending.insert ch.messageId filled⟩)
      else (.ok (some filled.chunks.reduceOption.flatten), ⟨r.pending.erase ch.messageId⟩) := by
  subst h
  have valid : ¬ (ch.totalChunks = 0 ∨ ch.totalChunks ≤ ch.chunkIdx) := by
    rw [eq] at hi
    rintro (none | above)
    · rw [none] at hi
      exact absurd hi (by simp)
    · exact absurd hi (UInt32.not_lt.mpr above)
  rw [push, dif_neg valid]
  simp only [eq, dite_true]

def gcExpired (now olderThan : Nat) : Nat × Reassembler :=
  let kept := r.pending.retain fun _ p => now - p.startedAt < olderThan
  (r.pending.entries.length - kept.entries.length, ⟨kept⟩)

def receive (now : Nat) (bytes : List UInt8) : Option (Except ChunkError (Option (List UInt8)) × Reassembler) :=
  (Chunk.fromWire bytes).map (r.push now)

def receiveAll (r : Reassembler) :
    List (Nat × List UInt8) → Option (List (Except ChunkError (Option (List UInt8))) × Reassembler)
  | [] => some ([], r)
  | (now, bytes) :: rest =>
    (r.receive now bytes).bind fun (answer, next) =>
      (next.receiveAll rest).map fun (answers, final) => (answer :: answers, final)

end Reassembler

end Atomr.Remote
