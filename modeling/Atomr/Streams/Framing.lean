import Atomr.Library.Bytes
import Atomr.Library.Delimited
import Atomr.Library.Unfold

/-! Framing: a stream of chunks of bytes turned into a stream of frames.

Both framings take a whole frame off their buffer where there is one, and pull a chunk into it where there is none.
What they produce is compared with a reading of the whole byte string, which does not know of chunks.
-/

namespace Atomr.Streams

open Library List

inductive FramingError where
  | frameTooLarge : Nat → FramingError
  | truncated
  deriving DecidableEq

abbrev Frame := Except FramingError (List UInt8)

structure FrameState where
  stream : List (List UInt8)
  buf : List UInt8
  done : Bool

def Frame.failed : Frame → Bool
  | .ok _ => false
  | .error _ => true

namespace Framing

/-- The loop of both framings: `take` finds a frame at the head of the buffer, and `refuse` looks at the buffer
after a chunk was added to it. -/
def next (take : List UInt8 → Option (Frame × List UInt8)) (refuse : List UInt8 → Option FramingError) :
    List (List UInt8) → List UInt8 → Option Frame × FrameState
  | [], buf =>
    match take buf with
    | some (frame, rest) => (some frame, ⟨[], rest, frame.failed⟩)
    | none => if buf.isEmpty then (none, ⟨[], buf, false⟩) else (some (.error .truncated), ⟨[], buf, true⟩)
  | chunk :: stream, buf =>
    match take buf with
    | some (frame, rest) => (some frame, ⟨chunk :: stream, rest, frame.failed⟩)
    | none =>
      match refuse (buf ++ chunk) with
      | some error => (some (.error error), ⟨stream, buf ++ chunk, true⟩)
      | none => next take refuse stream (buf ++ chunk)

def framing (take : List UInt8 → Option (Frame × List UInt8)) (refuse : List UInt8 → Option FramingError)
    (st : FrameState) : Option Frame × FrameState :=
  if st.done then (none, st) else next take refuse st.stream st.buf

def takeDelimited (delimiter : UInt8) (maxFrameLength : Nat) (buf : List UInt8) : Option (Frame × List UInt8) :=
  (buf.findIdx? (· == delimiter)).map fun pos =>
    let frame := buf.take pos
    (if frame.length > maxFrameLength then .error (.frameTooLarge maxFrameLength) else .ok frame, buf.drop (pos + 1))

variable (maxFrameLength : Nat)

def refuseLonger (buf : List UInt8) : Option FramingError :=
  if buf.length > maxFrameLength then some (.frameTooLarge maxFrameLength) else none

def delimiter (delimiter : UInt8) (maxFrameLength : Nat) : FrameState → Option Frame × FrameState :=
  framing (takeDelimited delimiter maxFrameLength) (refuseLonger maxFrameLength)

def takePrefixed (buf : List UInt8) : Option (Frame × List UInt8) :=
  if buf.length ≥ 4 then
    let len := Bytes.ofLittleEndian (buf.take 4)
    if len > maxFrameLength then some (.error (.frameTooLarge maxFrameLength), buf)
    else if buf.length ≥ 4 + len then some (.ok ((buf.drop 4).take len), (buf.drop 4).drop len)
    else none
  else none

def lengthField : FrameState → Option Frame × FrameState := framing (takePrefixed maxFrameLength) fun _ => none

/-- The framing of these chunks, behind what the buffer holds, gives these frames and ends. -/
def Produces (flow : FrameState → Option Frame × FrameState) (chunks : List (List UInt8)) (buf : List UInt8)
    (frames : List Frame) : Prop :=
  ∃ last, Unfolds flow ⟨chunks, buf, false⟩ frames last

section Production

variable {take : List UInt8 → Option (Frame × List UInt8)} {refuse : List UInt8 → Option FramingError}
  {cs s : List (List UInt8)} {buf rest bs ch : List UInt8} {f : Frame} {frames : List Frame}

theorem produces_error_iff {err : FramingError}
    (failed : next take refuse cs buf = (some (.error err), ⟨s, rest, true⟩)) :
    Produces (framing take refuse) cs buf frames ↔ frames = [.error err] := by
  have only : Unfolds (framing take refuse) ⟨cs, buf, false⟩ [.error err] ⟨s, rest, true⟩ :=
    .emits failed (.ended rfl)
  constructor
  · rintro ⟨last, unf⟩
    exact (unf.unique only).1
  · rintro rfl
    exact ⟨_, only⟩

theorem produces_ok_iff {p : List UInt8}
    (hem : next take refuse cs buf = (some (.ok p), ⟨s, rest, false⟩)) :
    Produces (framing take refuse) cs buf (.ok p :: frames) ↔
      Produces (framing take refuse) s rest frames := by
  have first : framing take refuse ⟨cs, buf, false⟩ = (some (.ok p), ⟨s, rest, false⟩) := hem
  constructor
  · rintro ⟨last, unf⟩
    cases unf with
    | emits again later =>
      rw [first] at again
      cases again
      exact ⟨last, later⟩
  · rintro ⟨last, unf⟩
    exact ⟨last, .emits first unf⟩

end Production

def framesOf (maxFrameLength : Nat) : List (List UInt8) → List Frame
  | [] => []
  | [tail] =>
    if maxFrameLength < tail.length then [.error (.frameTooLarge maxFrameLength)]
    else if tail.isEmpty then [] else [.error .truncated]
  | frame :: rest =>
    if maxFrameLength < frame.length then [.error (.frameTooLarge maxFrameLength)] else .ok frame :: framesOf maxFrameLength rest

def delimitedFrames (delimiter : UInt8) (maxFrameLength : Nat) (bytes : List UInt8) : List Frame :=
  framesOf maxFrameLength (Delimited.pieces delimiter bytes)

/-- A chunk together with the unfinished frame before it is longer than a frame may be only where the frame itself is. -/
def ChunksFit (delimiter : UInt8) (maxFrameLength : Nat) : List UInt8 → List (List UInt8) → Prop
  | _, [] => True
  | unfinished, chunk :: rest =>
    if (unfinished ++ chunk).length ≤ maxFrameLength then
      ChunksFit delimiter maxFrameLength ((Delimited.pieces delimiter (unfinished ++ chunk)).getLastD []) rest
    else maxFrameLength < ((Delimited.pieces delimiter (unfinished ++ chunk ++ rest.flatten)).headD []).length

section Delimiter

variable {sep : UInt8} {limit : Nat} {buf frame bytes more : List UInt8} {chunks : List (List UInt8)}

theorem beq_false_of_not_mem (whole : sep ∉ bytes) : ∀ b ∈ bytes, (b == sep) = false :=
  fun _ mem => beq_false_of_ne (ne_of_mem_of_not_mem mem whole)

theorem pieces_of_not_mem (whole : sep ∉ bytes) : Delimited.pieces sep bytes = [bytes] :=
  splitOnP_eq_singleton (beq_false_of_not_mem whole)

theorem pieces_append_cons (whole : sep ∉ frame) :
    Delimited.pieces sep (frame ++ sep :: more) = frame :: Delimited.pieces sep more := by
  have cut := Delimited.pieces_ended_append (forall_mem_singleton.mpr whole) more
  rwa [Delimited.ended_cons, append_assoc] at cut

theorem exists_pieces (sep : UInt8) (bs : List UInt8) : ∃ first rest, Delimited.pieces sep bs = first :: rest :=
  exists_cons_of_ne_nil (splitOnP_ne_nil _ _)

theorem delimitedFrames_append_cons (whole : sep ∉ frame) :
    delimitedFrames sep limit (frame ++ sep :: more) =
      if limit < frame.length then [.error (.frameTooLarge limit)] else .ok frame :: delimitedFrames sep limit more := by
  obtain ⟨first, rest, shape⟩ := exists_pieces sep more
  rw [delimitedFrames, delimitedFrames, pieces_append_cons whole, shape, framesOf]
  exact cons_ne_nil _ _

theorem delimitedFrames_eq_error_iff (long : limit < bytes.length) :
    delimitedFrames sep limit bytes = [.error (.frameTooLarge limit)] ↔
      limit < ((Delimited.pieces sep bytes).headD []).length := by
  by_cases cut : sep ∈ bytes
  · obtain ⟨f, more, rfl, whole⟩ := eq_append_cons_of_mem cut
    rw [delimitedFrames_append_cons whole, pieces_append_cons whole]
    split <;> simp_all
  · simp [delimitedFrames, pieces_of_not_mem cut, framesOf, long]

theorem takeDelimited_eq_none (whole : sep ∉ buf) : takeDelimited sep limit buf = none := by
  rw [takeDelimited, List.findIdx?_eq_none_iff.mpr (beq_false_of_not_mem whole), Option.map_none]

theorem takeDelimited_eq_some (whole : sep ∉ frame) (fits : frame.length ≤ limit) :
    takeDelimited sep limit (frame ++ sep :: more) = some (.ok frame, more) := by
  have found : (frame ++ sep :: more).findIdx? (· == sep) = some frame.length := by
    rw [List.findIdx?_append, List.findIdx?_eq_none_iff.mpr (beq_false_of_not_mem whole), List.findIdx?_cons]
    simp
  simp [takeDelimited, found, fits]

def FramedIff (sep : UInt8) (limit : Nat) (chunks : List (List UInt8)) (buf : List UInt8) : Prop :=
  Produces (delimiter sep limit) chunks buf (delimitedFrames sep limit (buf ++ chunks.flatten)) ↔
    ChunksFit sep limit ((Delimited.pieces sep buf).getLastD []) chunks

theorem framedIff_frame (whole : sep ∉ frame) (fits : frame.length ≤ limit) (framed : FramedIff sep limit chunks more) :
    FramedIff sep limit chunks (frame ++ sep :: more) := by
  have hem : next (takeDelimited sep limit) (refuseLonger limit) chunks (frame ++ sep :: more) =
      (some (.ok frame), ⟨chunks, more, false⟩) := by
    cases chunks <;> rw [next, takeDelimited_eq_some whole fits] <;> rfl
  obtain ⟨first, rest, shape⟩ := exists_pieces sep more
  rw [FramedIff, append_assoc, cons_append, delimitedFrames_append_cons whole, if_neg (Nat.not_lt.mpr fits),
    delimiter, produces_ok_iff hem, pieces_append_cons whole]
  rw [FramedIff, shape] at framed
  rw [shape]
  exact framed

/-- It is enough to look at buffers that hold no whole frame. -/
theorem framedIff_of_unfinished (unfinished : ∀ buf, sep ∉ buf → buf.length ≤ limit → FramedIff sep limit chunks buf)
    (fits : buf.length ≤ limit) : FramedIff sep limit chunks buf := by
  induction length : buf.length using Nat.strongRecOn generalizing buf with
  | ind n ih =>
    by_cases cut : sep ∈ buf
    · obtain ⟨f, more, rfl, whole⟩ := eq_append_cons_of_mem cut
      rw [length_append, length_cons] at fits length
      exact framedIff_frame whole (by omega) (ih more.length (by omega) (by omega) rfl)
    · exact unfinished buf cut fits

theorem framedIff_of_fits (fits : buf.length ≤ limit) : FramedIff sep limit chunks buf := by
  induction chunks generalizing buf with
  | nil =>
    refine framedIff_of_unfinished (fun buf whole fits => iff_of_true ?_ trivial) fits
    rw [flatten_nil, append_nil, delimitedFrames, pieces_of_not_mem whole, framesOf, if_neg (Nat.not_lt.mpr fits)]
    cases buf with
    | nil => exact ⟨_, .ended (by rfl)⟩
    | cons b rest =>
      have failed : next (takeDelimited sep limit) (refuseLonger limit) [] (b :: rest) =
          (some (.error .truncated), ⟨[], b :: rest, true⟩) := by
        rw [next, takeDelimited_eq_none whole]
        rfl
      exact (produces_error_iff failed).mpr rfl
  | cons ch rest ih =>
    refine framedIff_of_unfinished (fun buf whole fits => ?_) fits
    rw [FramedIff, pieces_of_not_mem whole, getLastD_cons, getLastD_nil, ChunksFit, flatten_cons, ← append_assoc]
    split
    next short =>
      have pulled : delimiter sep limit ⟨ch :: rest, buf, false⟩ = delimiter sep limit ⟨rest, buf ++ ch, false⟩ := by
        simp only [delimiter, framing, Bool.false_eq_true, if_false]
        rw [next, takeDelimited_eq_none whole, refuseLonger, if_neg (Nat.not_lt.mpr short)]
      refine Iff.trans ⟨fun ⟨last, unf⟩ => ?_, fun ⟨last, unf⟩ => ?_⟩ (ih short)
      · exact ⟨last, .of_step pulled.symm unf⟩
      · exact ⟨last, .of_step pulled unf⟩
    next long =>
      have longer : limit < (buf ++ ch).length := Nat.lt_of_not_le long
      have failed : next (takeDelimited sep limit) (refuseLonger limit) (ch :: rest) buf =
          (some (.error (.frameTooLarge limit)), ⟨rest, buf ++ ch, true⟩) := by
        rw [next, takeDelimited_eq_none whole, refuseLonger, if_pos longer]
      refine (produces_error_iff failed).trans (delimitedFrames_eq_error_iff ?_)
      rw [length_append]
      exact Nat.lt_add_right _ longer

theorem delimiter_framing_iff (sep : UInt8) (limit : Nat) (chunks : List (List UInt8)) :
    Produces (delimiter sep limit) chunks [] (delimitedFrames sep limit chunks.flatten) ↔ ChunksFit sep limit [] chunks :=
  framedIff_of_fits (Nat.zero_le limit)

/-- Two short frames in one chunk, and the same bytes in two chunks. -/
theorem delimiter_framing_by_chunks :
    Produces (delimiter 10 4) [[97, 98, 10], [99, 100, 10]] [] [.ok [97, 98], .ok [99, 100]] ∧
      Produces (delimiter 10 4) [[97, 98, 10, 99, 100, 10]] [] [.error (.frameTooLarge 4)] ∧
      ¬ Produces (delimiter 10 4) [[97, 98, 10, 99, 100, 10]] [] (delimitedFrames 10 4 [97, 98, 10, 99, 100, 10]) := by
  refine ⟨⟨_, .emits rfl (.emits rfl (.ended rfl))⟩, ⟨_, .emits rfl (.ended rfl)⟩, ?_⟩
  rintro ⟨last, unfolds⟩
  cases (unfolds.unique (.emits rfl (.ended rfl))).1

end Delimiter

def encode (payload : List UInt8) : List UInt8 := Bytes.littleEndian 4 payload.length ++ payload

section LengthField

variable {take : List UInt8 → Option (Frame × List UInt8)} {limit : Nat} {payload bytes buf part rest : List UInt8}
  {chunks payloads : List (List UInt8)} {frame : Frame} {frames : List Frame}

def Steady (take : List UInt8 → Option (Frame × List UInt8)) : Prop :=
  ∀ buf frame rest more, take buf = some (frame, rest) → take (buf ++ more) = some (frame, rest ++ more)

/-- Without refusals the chunks do not matter: what is found in all bytes is found. -/
theorem next_of_some (steady : Steady take) (found : take (buf ++ chunks.flatten) = some (frame, rest)) :
    ∃ s h, next take (fun _ => none) chunks buf = (some frame, ⟨s, h, frame.failed⟩) ∧
      h ++ s.flatten = rest := by
  induction chunks generalizing buf with
  | nil =>
    rw [flatten_nil, append_nil] at found
    exact ⟨[], rest, by rw [next, found], append_nil rest⟩
  | cons ch s ih =>
    cases here : take buf with
    | some h =>
      have again := steady buf h.1 h.2 (ch :: s).flatten here
      rw [found] at again
      cases again
      exact ⟨ch :: s, h.2, by rw [next, here], rfl⟩
    | none =>
      rw [flatten_cons, ← append_assoc] at found
      obtain ⟨left, h, hem, eq⟩ := ih found
      exact ⟨left, h, by rw [next, here, hem], eq⟩

theorem next_of_none (steady : Steady take) (none : take (buf ++ chunks.flatten) = .none) :
    next take (fun _ => .none) chunks buf = next take (fun _ => .none) [] (buf ++ chunks.flatten) := by
  induction chunks generalizing buf with
  | nil => rw [flatten_nil, append_nil]
  | cons ch s ih =>
    cases here : take buf with
    | some h =>
      rw [steady buf h.1 h.2 _ here] at none
      cases none
    | none =>
      rw [flatten_cons, ← append_assoc] at none ⊢
      rw [← ih none, next, here]

theorem takePrefixed_steady : Steady (takePrefixed limit) := by
  intro buf f rest more found
  unfold takePrefixed at found ⊢
  split at found
  next header =>
    have length : 4 ≤ (buf ++ more).length := by
      rw [length_append]
      omega
    rw [if_pos length, take_append_of_le_length header, drop_append_of_le_length header]
    dsimp only at found ⊢
    split at found
    next large =>
      cases found
      rw [if_pos large]
    · split at found <;> cases found
      next large whole =>
        have body : Bytes.ofLittleEndian (buf.take 4) ≤ (buf.drop 4).length := by
          rw [length_drop]
          omega
        rw [if_neg large, if_pos (by rw [length_append]; omega), take_append_of_le_length body,
          drop_append_of_le_length body]
  · cases found

theorem takePrefixed_encode (lim : Nat) (short : payload.length < 2 ^ 32) (rest : List UInt8) :
    takePrefixed lim (encode payload ++ rest) =
      if lim < payload.length then some (.error (.frameTooLarge lim), encode payload ++ rest)
      else some (.ok payload, rest) := by
  have header : (encode payload ++ rest).take 4 = Bytes.littleEndian 4 payload.length := by
    exact take_left' (Bytes.length_littleEndian ..)
  have tail : (encode payload ++ rest).drop 4 = payload ++ rest := by
    exact drop_left' (Bytes.length_littleEndian ..)
  have length : (encode payload ++ rest).length = 4 + (payload.length + rest.length) := by simp [encode]
  rw [takePrefixed, header, tail, length, Bytes.ofLittleEndian_littleEndian, Nat.mod_eq_of_lt (by omega)]
  simp

theorem takePrefixed_cut (short : payload.length < 2 ^ 32) (fits : payload.length ≤ limit) (hi : part <+: encode payload)
    (cut : part ≠ encode payload) : takePrefixed limit part = none := by
  obtain ⟨missing, whole⟩ := hi
  cases found : takePrefixed limit part with
  | none => rfl
  | some h =>
    have again := takePrefixed_steady part h.1 h.2 missing found
    have all := takePrefixed_encode limit short []
    rw [append_nil, if_neg (Nat.not_lt.mpr fits), ← whole, again] at all
    have nothing : h.2 ++ missing = [] := congrArg Prod.snd (Option.some.inj all)
    rw [(append_eq_nil_iff.mp nothing).2, append_nil] at whole
    exact absurd whole cut

/-- The payloads come first, and then what comes of the rest of the bytes, however they are cut. -/
theorem produces_payloads (valid : ∀ p ∈ payloads, p.length ≤ limit ∧ p.length < 2 ^ 32)
    (tail : ∀ chunks buf, buf ++ chunks.flatten = rest → Produces (lengthField limit) chunks buf frames)
    (whole : buf ++ chunks.flatten = payloads.flatMap encode ++ rest) :
    Produces (lengthField limit) chunks buf (payloads.map .ok ++ frames) := by
  induction payloads generalizing buf chunks with
  | nil => exact tail chunks buf whole
  | cons p payloads ih =>
    obtain ⟨⟨fits, short⟩, later⟩ := forall_mem_cons.mp valid
    rw [flatMap_cons, append_assoc] at whole
    have found := takePrefixed_encode limit short (payloads.flatMap encode ++ rest)
    rw [if_neg (Nat.not_lt.mpr fits), ← whole] at found
    obtain ⟨s, h, hem, eq⟩ := next_of_some takePrefixed_steady found
    exact (produces_ok_iff hem).mpr (ih later eq)

theorem length_field_framing {limit : Nat} {payloads : List (List UInt8)}
    (valid : ∀ payload ∈ payloads, payload.length ≤ limit ∧ payload.length < 2 ^ 32) (chunks : List (List UInt8)) :
    (chunks.flatten = payloads.flatMap encode → Produces (lengthField limit) chunks [] (payloads.map .ok)) ∧
    (∀ payload part, payload.length ≤ limit → payload.length < 2 ^ 32 → part <+: encode payload → part ≠ [] →
      part ≠ encode payload → chunks.flatten = payloads.flatMap encode ++ part →
      Produces (lengthField limit) chunks [] (payloads.map .ok ++ [.error .truncated])) ∧
    ∀ payload rest, limit < payload.length → payload.length < 2 ^ 32 →
      chunks.flatten = payloads.flatMap encode ++ (encode payload ++ rest) →
      Produces (lengthField limit) chunks [] (payloads.map .ok ++ [.error (.frameTooLarge limit)]) := by
  refine ⟨fun whole => ?_, fun payload part fits short inside some cut whole => ?_,
    fun payload rest large short whole => ?_⟩
  · rw [← append_nil (payloads.flatMap encode)] at whole
    rw [← append_nil (payloads.map _)]
    refine produces_payloads valid (fun chunks buf empty => ⟨⟨[], [], false⟩, .ended ?_⟩) whole
    have none : takePrefixed limit (buf ++ chunks.flatten) = none := by rw [empty, takePrefixed, if_neg (by decide)]
    exact (next_of_none takePrefixed_steady none).trans (by rw [next, none, empty]; rfl)
  · refine produces_payloads valid (fun chunks buf eq => ?_) whole
    have none : takePrefixed limit (buf ++ chunks.flatten) = none := by
      rw [eq]
      exact takePrefixed_cut short fits inside cut
    have failed : next (takePrefixed limit) (fun _ => .none) chunks buf =
        (.some (.error .truncated), ⟨[], part, true⟩) := by
      rw [next_of_none takePrefixed_steady none, next, none, eq, if_neg (by simpa using some)]
    exact (produces_error_iff failed).mpr rfl
  · refine produces_payloads valid (fun chunks buf eq => ?_) whole
    have found := takePrefixed_encode limit short rest
    rw [if_pos large, ← eq] at found
    obtain ⟨stream, held, emitted, -⟩ := next_of_some takePrefixed_steady found
    exact (produces_error_iff emitted).mpr rfl

/-- One payload and a part of another, with the header of the first cut in two. -/
theorem length_field_framing_cut :
    Produces (lengthField 3) [[2, 0], [], [0, 0, 7, 8, 1], [0, 0, 0]] [] [.ok [7, 8], .error .truncated] :=
  (length_field_framing (forall_mem_singleton.mpr (by decide)) _).2.1 [5] [1, 0, 0, 0] (by decide) (by decide)
    (by decide) (by decide) (by decide) (by decide)

end LengthField

end Framing

end Atomr.Streams
