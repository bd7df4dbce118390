import Atomr.Library.Bytes
import Atomr.Library.Unfold

/-! Frames on a connection between nodes.

The length of a frame is narrowed to 32 bits when it is written, and a length above the limit is refused when it is
read. The writer knows no limit.
-/

namespace Atomr.Cluster

open Library Bytes List

/-- The encoding of frames. A decoder that runs out of bytes fails. -/
structure FrameCodec (F : Type) where
  encode : F → Option (List UInt8)
  decode : List UInt8 → Option F
  inverts : ∀ frame bytes, encode frame = some bytes → decode bytes = some frame
  complete : ∀ frame bytes, encode frame = some bytes → ∀ cut, cut <+: bytes → cut ≠ bytes → decode cut = none

inductive ReadError where
  | unexpectedEof
  | frameTooLarge

def maxFrame : Nat := 16 * 1024 * 1024

def readFrameInto (stream : List UInt8) : Except ReadError (List UInt8 × List UInt8) :=
  if stream.length < 4 then .error .unexpectedEof
  else
    let len := ofBigEndian (stream.take 4)
    let stream := stream.drop 4
    if len > maxFrame then .error .frameTooLarge
    else if stream.length < len then .error .unexpectedEof
    else .ok (stream.take len, stream.drop len)

variable {F : Type} (codec : FrameCodec F)

def writeFrame (frame : F) : Option (List UInt8) := do
  let bytes ← codec.encode frame
  some (bigEndian 4 bytes.length ++ bytes)

def writeFrames : List F → Option (List UInt8)
  | [] => some []
  | frame :: rest => do
    let first ← writeFrame codec frame
    let more ← writeFrames rest
    some (first ++ more)

/-- One round of the loop, which ends with what it could not read. -/
def handleInbound (stream : List UInt8) : Option F × List UInt8 :=
  match readFrameInto stream with
  | .error _ => (none, stream)
  | .ok (buf, rest) =>
    match codec.decode buf with
    | some frame => (some frame, rest)
    | none => (none, stream)

def FrameCodec.Fits (frame : F) : Prop := ∀ bytes, codec.encode frame = some bytes → bytes.length ≤ maxFrame

variable {codec} {frame : F} {bytes : List UInt8}

theorem readFrameInto_append (bs rest : List UInt8) :
    readFrameInto (bigEndian 4 bs.length ++ bs ++ rest) =
      if bs.length % 256 ^ 4 > maxFrame then .error .frameTooLarge
      else .ok (bs.take (bs.length % 256 ^ 4), bs.drop (bs.length % 256 ^ 4) ++ rest) := by
  have room : bs.length % 256 ^ 4 ≤ bs.length := Nat.mod_le _ _
  have long : ¬(bs ++ rest).length < bs.length % 256 ^ 4 := by
    rw [length_append]
    omega
  rw [append_assoc, readFrameInto, if_neg (by simp)]
  simp only [take_left' (length_bigEndian 4 _), drop_left' (length_bigEndian 4 _), ofBigEndian_bigEndian]
  rw [if_neg long, take_append_of_le_length room, drop_append_of_le_length room]

theorem handleInbound_fits (enc : codec.encode frame = some bytes) (fits : bytes.length ≤ maxFrame)
    (rest : List UInt8) : handleInbound codec (bigEndian 4 bytes.length ++ bytes ++ rest) = (some frame, rest) := by
  have narrow : bytes.length % 256 ^ 4 = bytes.length := Nat.mod_eq_of_lt (Nat.lt_of_le_of_lt fits (by decide))
  rw [handleInbound, readFrameInto_append, narrow, if_neg (Nat.not_lt.mpr fits)]
  simp [codec.inverts frame bytes enc]

/-- A longer frame is refused, or cut where its length was narrowed. -/
theorem handleInbound_exceeds (enc : codec.encode frame = some bytes) (exceeds : maxFrame < bytes.length)
    (rest : List UInt8) : (handleInbound codec (bigEndian 4 bytes.length ++ bytes ++ rest)).1 = none := by
  rw [handleInbound, readFrameInto_append]
  by_cases large : bytes.length % 256 ^ 4 > maxFrame
  · rw [if_pos large]
  · have cut : bytes.take (bytes.length % 256 ^ 4) ≠ bytes := by
      intro whole
      have lengths := congrArg List.length whole
      rw [length_take] at lengths
      omega
    rw [if_neg large]
    simp only [codec.complete frame bytes enc _ (List.take_prefix _ _) cut]

/-- What was written is read back, up to the end of the stream, exactly when no frame is above the limit. -/
theorem frame_stream_iff {frames : List F} {stream : List UInt8} (written : writeFrames codec frames = some stream) :
    Unfolds (handleInbound codec) stream frames [] ↔ ∀ frame ∈ frames, codec.Fits frame := by
  induction frames generalizing stream with
  | nil =>
    cases written
    exact iff_of_true (.ended rfl) (by simp)
  | cons frame frames ih =>
    simp only [writeFrames, writeFrame, Option.bind_eq_bind, Option.bind_eq_some_iff] at written
    obtain ⟨first, ⟨bytes, encoded, ⟨⟩⟩, more, later, ⟨⟩⟩ := written
    have fits : codec.Fits frame ↔ bytes.length ≤ maxFrame := by simp [FrameCodec.Fits, encoded]
    rw [forall_mem_cons, ← ih later, fits]
    constructor
    · intro unfolds
      cases unfolds with
      | emits emitted rest =>
        rcases Nat.lt_or_ge maxFrame bytes.length with exceeds | small
        · have stops := handleInbound_exceeds encoded exceeds more
          rw [emitted] at stops
          cases stops
        · rw [handleInbound_fits encoded small more] at emitted
          cases emitted
          exact ⟨small, rest⟩
    · rintro ⟨small, rest⟩
      exact .emits (handleInbound_fits encoded small more) rest

def FrameCodec.runs : FrameCodec Nat where
  encode n := some (List.replicate n 0 ++ [1])
  decode bytes := if bytes.getLast? = some 1 then some (bytes.length - 1) else none
  inverts := by
    rintro n _ ⟨⟩
    simp
  complete := by
    rintro n _ ⟨⟩ cut front proper
    rcases List.prefix_concat_iff.mp front with whole | zeros
    · exact absurd whole proper
    · refine if_neg fun last => ?_
      have zero := List.eq_of_mem_replicate (zeros.subset (List.mem_of_getLast? last))
      exact absurd zero (by decide)

theorem frame_stream_two_runs : ∃ stream, writeFrames .runs [2, 0] = some stream ∧
    Unfolds (handleInbound .runs) stream [2, 0] [] := by
  refine ⟨_, rfl, (frame_stream_iff rfl).mpr ?_⟩
  simp [FrameCodec.Fits, FrameCodec.runs, maxFrame]

theorem refused_run {n : Nat} (exceeds : maxFrame ≤ n) (narrow : n + 1 < 256 ^ 4) :
    ∃ s, writeFrames .runs [n] = some s ∧ readFrameInto s = .error .frameTooLarge ∧
      ¬ Unfolds (handleInbound .runs) s [n] [] := by
  have length : (List.replicate n (0 : UInt8) ++ [1]).length = n + 1 := by simp
  have refused := readFrameInto_append (List.replicate n 0 ++ [1]) []
  rw [length, Nat.mod_eq_of_lt narrow, if_pos (Nat.lt_succ_of_le exceeds)] at refused
  refine ⟨_, rfl, by rw [length]; exact refused, fun unf => ?_⟩
  cases unf with
  | emits hem _ =>
    rw [handleInbound, length, refused] at hem
    cases hem

/-- One byte above the limit, and the frame is lost. -/
theorem long_frame_not_read : ∃ stream, writeFrames .runs [maxFrame] = some stream ∧
    readFrameInto stream = .error .frameTooLarge ∧ ¬ Unfolds (handleInbound .runs) stream [maxFrame] [] :=
  refused_run (Nat.le_refl _) (by decide)

end Atomr.Cluster
