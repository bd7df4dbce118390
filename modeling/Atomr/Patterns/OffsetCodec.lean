import Atomr.Patterns.JournalOffsetStore

/-! The stored offsets as bytes: every cut is noticed, and no read is outside of them. -/

namespace Atomr.Patterns.OffsetMap

open Library Bytes Text List

/-- The panic of a slice that is not inside the bytes. -/
inductive Panic where
  | outOfRange

def slice (bytes : List UInt8) (start stop : Nat) : Except Panic (List UInt8) :=
  if start ≤ stop ∧ stop ≤ bytes.length then .ok ((bytes.drop start).take (stop - start)) else .error .outOfRange

/-- The loop with the position of the source. -/
def decodeAt (bytes : List UInt8) : (count p : Nat) → Table String UInt64 → Except Panic (Option (Table String UInt64))
  | 0, _, out => .ok (some out)
  | count + 1, p, out =>
    if bytes.length < p + 4 then .ok none
    else do
      let kl := ofLittleEndian (← slice bytes p (p + 4))
      let p := p + 4
      if bytes.length < p + kl + 8 then .ok none
      else
        match ofUtf8 (← slice bytes p (p + kl)) with
        | none => .ok none
        | some key =>
          let p := p + kl
          let v := ofLittleEndian (← slice bytes p (p + 8))
          decodeAt bytes count (p + 8) (out.insert key (UInt64.ofNat v))

def decodeIndexed (bytes : List UInt8) : Except Panic (Option (Table String UInt64)) :=
  if bytes.length < 4 then .ok none
  else do decodeAt bytes (ofLittleEndian (← slice bytes 0 4)) 4 ∅

variable {bytes : List UInt8}

theorem slice_of_le {start n : Nat} (hi : start + n ≤ bytes.length) :
    slice bytes start (start + n) = .ok ((bytes.drop start).take n) := by
  rw [slice, if_pos ⟨Nat.le_add_right start n, hi⟩, Nat.add_sub_cancel_left]

theorem decodeAt_eq (count : Nat) {p : Nat} (hi : p ≤ bytes.length) (out : Table String UInt64) :
    decodeAt bytes count p out = .ok (decodeEntries count (bytes.drop p) out) := by
  induction count generalizing p out with
  | zero => rfl
  | succ count ih =>
    unfold decodeAt decodeEntries
    simp only [length_drop, drop_drop]
    by_cases short : bytes.length < p + 4
    · rw [if_pos short, if_pos (by omega)]
    rw [if_neg short, if_neg (by omega), slice_of_le (by omega)]
    dsimp only [bind, Except.bind]
    generalize ofLittleEndian ((bytes.drop p).take 4) = kl
    by_cases cut : bytes.length < p + 4 + kl + 8
    · rw [if_pos cut, if_pos (by omega)]
    rw [if_neg cut, if_neg (by omega), slice_of_le (by omega)]
    dsimp only
    cases ofUtf8 ((bytes.drop (p + 4)).take kl) with
    | none => rfl
    | some k =>
      dsimp only
      rw [slice_of_le (by omega)]
      exact ih (by omega) _

theorem decodeIndexed_eq (bs : List UInt8) : decodeIndexed bs = .ok (decode bs) := by
  unfold decodeIndexed decode
  split
  · rfl
  next long =>
    have head : slice bs 0 (0 + 4) = .ok (bs.take 4) := slice_of_le (by omega)
    rw [show slice bs 0 4 = _ from head]
    exact decodeAt_eq _ (by omega) _

theorem decodeEntries_of_cut {e : Sigma fun _ : String => UInt64} (short : (utf8 e.1).length < 2 ^ 32)
    {cut : List UInt8} (front : cut <+: encodeEntry e) (fewer : cut.length < (encodeEntry e).length)
    (count : Nat) (out : Table String UInt64) : decodeEntries (count + 1) cut out = none := by
  unfold decodeEntries
  split
  · rfl
  next long =>
    have length : cut.take 4 = littleEndian 4 (utf8 e.1).length := by
      rw [prefix_iff_eq_take.mp front, take_take, Nat.min_eq_left (by omega), encodeEntry, append_assoc]
      exact take_left' (length_littleEndian 4 _)
    have k : ofLittleEndian (cut.take 4) = (utf8 e.1).length := by
      rw [length, ofLittleEndian_littleEndian]
      exact Nat.mod_eq_of_lt short
    simp only [encodeEntry, length_append, length_littleEndian] at fewer
    simp only [k, length_drop]
    rw [if_pos (by omega)]

theorem exists_tail {first rest cut : List UInt8} (front : cut <+: first ++ rest) (long : first.length ≤ cut.length)
    (proper : cut ≠ first ++ rest) : ∃ tail, cut = first ++ tail ∧ tail <+: rest ∧ tail ≠ rest := by
  obtain ⟨tail, rfl⟩ := prefix_of_prefix_length_le (prefix_append first rest) front long
  exact ⟨tail, rfl, (prefix_append_right_inj first).mp front, fun eq => proper (by rw [eq])⟩

theorem decodeEntries_of_prefix (es : List (Sigma fun _ : String => UInt64)) (out : Table String UInt64)
    (short : ∀ e ∈ es, (utf8 e.1).length < 2 ^ 32) {cut : List UInt8}
    (front : cut <+: es.flatMap encodeEntry) (proper : cut ≠ es.flatMap encodeEntry) :
    decodeEntries es.length cut out = none := by
  induction es generalizing cut out with
  | nil => exact absurd (prefix_nil.mp front) proper
  | cons e es ih =>
    obtain ⟨first, later⟩ := forall_mem_cons.mp short
    rw [flatMap_cons] at front proper
    rw [length_cons]
    rcases Nat.lt_or_ge cut.length (encodeEntry e).length with fewer | long
    · have hi := prefix_of_prefix_length_le front (prefix_append _ _) fewer.le
      exact decodeEntries_of_cut first hi fewer _ _
    · obtain ⟨tail, rfl, front, proper⟩ := exists_tail front long proper
      rw [decodeEntries_encodeEntry first]
      exact ih _ later front proper

theorem decode_of_prefix {map : Table String UInt64} (fits : Fits map.keys) {cut : List UInt8}
    (front : cut <+: encode map) (proper : cut ≠ encode map) : decode cut = none := by
  unfold decode
  split
  · rfl
  next long =>
    obtain ⟨tail, rfl, front, proper⟩ := exists_tail front (by rw [length_littleEndian]; omega) proper
    rw [take_left' (length_littleEndian 4 _), drop_left' (length_littleEndian 4 _), fits.read_count]
    exact decodeEntries_of_prefix _ _ fits.read_lengths front proper

/-- The bytes of a map give the map back in whatever order its entries are written, any part of them that misses
the end is refused, and the positions never leave the bytes. -/
theorem offset_codec {map : Table String UInt64} (fits : Fits map.keys) :
    (∀ order : Table String UInt64, order.entries.Perm map.entries →
      (∃ read, decode (encode order) = some read ∧ ∀ key, read.lookup key = map.lookup key) ∧
      ∀ cut, cut <+: encode order → cut ≠ encode order → decode cut = none) ∧
    ∀ bytes, decodeIndexed bytes = .ok (decode bytes) := by
  refine ⟨fun order perm => ?_, decodeIndexed_eq⟩
  have fits : Fits order.keys := fits.of_subset order.keys_nodup (perm.map Sigma.fst).subset
  obtain ⟨read, decoded, eq⟩ := decode_encode fits
  exact ⟨⟨read, decoded, fun key => (eq key).trans (AList.perm_lookup perm)⟩, fun cut => decode_of_prefix fits⟩

theorem offset_codec_orders : Fits firstOffsets.keys ∧
    (∃ read, decode (encode firstOffsets) = some read ∧ ∀ key, read.lookup key = firstOffsets.lookup key) ∧
    decode ((encode firstOffsets).take 21) = none := by
  have fits : Fits firstOffsets.keys := by decide +kernel
  obtain ⟨roundTrip, cuts⟩ := (offset_codec fits).1 firstOffsets (.refl _)
  exact ⟨fits, roundTrip, cuts _ (List.take_prefix 21 _) (by decide +kernel)⟩

end Atomr.Patterns.OffsetMap
