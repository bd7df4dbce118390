import Atomr.Fix.RoundTrip
import Atomr.Library.Delimited
import Atomr.Library.Outcome

/-! What an accepted frame says about its checksum.

The scan keeps the last checksum field it meets, wherever that field stands, and narrows its three digits to
a byte before they are compared.
-/

namespace Atomr.Fix

open Library.Text List
open Library.Delimited
open Library.Outcome

def readField (raw : List UInt8) : Option FixField :=
  if raw.isEmpty then none
  else do
    let text ← ofUtf8 raw
    let (tagText, valueText) ← splitOnce ['='] text.toList
    let number ← parseUnsigned (2 ^ 32) tagText
    some ⟨UInt32.ofNat number, String.ofList valueText⟩

def IsChecksum (raw : List UInt8) : Prop := ∃ value, readField raw = some ⟨Tags.CHECK_SUM, value⟩

/-- A checksum field of a frame, after the given segments. -/
def ChecksumAfter (input : List UInt8) (before : List (List UInt8)) (value : String) (after : List (List UInt8)) : Prop :=
  ∃ raw, pieces SOH input = before ++ raw :: after ∧ readField raw = some ⟨Tags.CHECK_SUM, value⟩

def byteTotal (bytes : List UInt8) : Nat := (bytes.map UInt8.toNat).sum

/-- The number that the digits of a checksum spell, before it is narrowed. -/
def spelled (value : String) : Nat := Nat.ofDigitChars 10 value.toList 0

structure Scanned (seen : List (List UInt8)) (scan : Scan) : Prop where
  offset : scan.offset = (ended SOH seen).length
  fields : scan.fields = seen.filterMap readField
  last : (∀ raw ∈ seen, ¬ IsChecksum raw) ∧ scan.checksumBoundary = none ∨
    ∃ before raw after value found, seen = before ++ raw :: after ∧ readField raw = some ⟨Tags.CHECK_SUM, value⟩ ∧
      (∀ other ∈ after, ¬ IsChecksum other) ∧ checksumValue value = some found ∧
      scan.checksumBoundary = some (ended SOH before).length ∧ scan.foundChecksum = some found

theorem scanned_start : Scanned [] Scan.start := ⟨rfl, rfl, .inl ⟨fun _ mem => absurd mem not_mem_nil, rfl⟩⟩

theorem readField_nil : readField [] = none := rfl

variable {next scan : Scan} {raw input : List UInt8} {seen after : List (List UInt8)} {message : FixMessage}
  {value : String} {i : Nat}

theorem segment_eq_ok (taken : scan.segment raw = .ok next) :
    raw = [] ∧ next = { scan with offset := scan.offset + 1 } ∨
      ∃ field, readField raw = some field ∧ scan.field raw.length field = .ok next := by
  unfold Scan.segment at taken
  split at taken
  next empty =>
    cases taken
    exact .inl ⟨isEmpty_iff.mp empty, rfl⟩
  next full =>
    refine .inr ?_
    unfold readField
    rw [if_neg full]
    split at taken
    · cases taken
    next tx dec =>
      split at taken
      · cases taken
      next tagText valueText cut =>
        split at taken
        · cases taken
        next num read =>
          refine ⟨_, ?_, taken⟩
          simp only [dec, cut, read, Option.bind_eq_bind, Option.bind_some]

theorem length_ended_snoc (seen : List (List UInt8)) (raw : List UInt8) :
    (ended SOH (seen ++ [raw])).length = (ended SOH seen).length + raw.length + 1 := by
  simp [length_ended, Nat.add_assoc]

theorem Scanned.plain (pre : Scanned seen scan) (other : ¬ IsChecksum raw)
    (off : next.offset = scan.offset + raw.length + 1)
    (fs : next.fields = scan.fields ++ (readField raw).toList)
    (boundary : next.checksumBoundary = scan.checksumBoundary) (found : next.foundChecksum = scan.foundChecksum) :
    Scanned (seen ++ [raw]) next := by
  refine ⟨by rw [off, pre.offset, length_ended_snoc], ?_, ?_⟩
  · rw [fs, pre.fields]
    cases read : readField raw <;> simp [read]
  · rw [boundary, found]
    rcases pre.last with ⟨none, unset⟩ | ⟨front, checksum, post, v, num, rfl, read, later, rest⟩
    · exact .inl ⟨forall_mem_append.mpr ⟨none, forall_mem_singleton.mpr other⟩, unset⟩
    · refine .inr ⟨front, checksum, post ++ [raw], v, num, by simp, read, ?_, rest⟩
      exact forall_mem_append.mpr ⟨later, forall_mem_singleton.mpr other⟩

theorem Scanned.segment (pre : Scanned seen scan) (taken : scan.segment raw = .ok next) :
    Scanned (seen ++ [raw]) next := by
  rcases segment_eq_ok taken with ⟨rfl, rfl⟩ | ⟨field, read, stored⟩
  · refine pre.plain ?_ rfl (by simp [readField_nil]) rfl rfl
    rintro ⟨v, read⟩
    cases read
  · unfold Scan.field at stored
    split at stored
    next isChecksum =>
      split at stored
      · cases stored
      next found readable =>
        cases stored
        refine ⟨by rw [length_ended_snoc, ← pre.offset], ?_, .inr ?_⟩
        · simp [pre.fields, read]
        · refine ⟨seen, raw, [], field.value, found, rfl, ?_, fun _ mem => absurd mem not_mem_nil,
            readable, by rw [← pre.offset], rfl⟩
          rw [read, ← isChecksum]
    next other =>
      cases stored
      refine pre.plain ?_ rfl (by simp [read]) rfl rfl
      rintro ⟨v, eq⟩
      rw [read] at eq
      cases eq
      exact other rfl

theorem Scanned.all {rest : List (List UInt8)} {final : Scan} (pre : Scanned seen scan)
    (taken : rest.foldlM Scan.segment scan = .ok final) : Scanned (seen ++ rest) final := by
  induction rest generalizing seen scan with
  | nil =>
    cases taken
    rwa [append_nil]
  | cons raw rest ih =>
    obtain ⟨next, here, later⟩ := bind_eq_ok.mp taken
    have tail := ih (pre.segment here) later
    rwa [append_assoc] at tail

theorem scanned_of_parse (acc : FixMessage.parse input = .ok message) :
    ∃ scan, Scanned (pieces SOH input) scan ∧ scan.finish input = .ok message := by
  unfold FixMessage.parse at acc
  split at acc
  · cases acc
  · obtain ⟨scan, taken, fin⟩ := bind_eq_ok.mp acc
    exact ⟨scan, scanned_start.all taken, fin⟩

theorem fields_of_finish (fin : scan.finish input = .ok message) : message.fields = scan.fields := by
  unfold Scan.finish at fin
  split at fin
  · cases fin
  · split at fin
    · dsimp only at fin
      split at fin
      · cases fin
      · cases fin; rfl
    · cases fin; rfl

theorem parse_fields (acc : FixMessage.parse input = .ok message) :
    message.fields = (pieces SOH input).filterMap readField := by
  obtain ⟨scan, scanned, fin⟩ := scanned_of_parse acc
  rw [fields_of_finish fin, scanned.fields]

variable {before : List (List UInt8)} {found old new : UInt8} {bs : List UInt8}

/-- The last checksum field of an accepted frame was compared with the bytes before it. -/
theorem parse_compares (acc : FixMessage.parse input = .ok message)
    (field : ChecksumAfter input before value after) (last : ∀ other ∈ after, ¬ IsChecksum other) :
    checksumValue value = some (checksumOf (ended SOH before)) := by
  obtain ⟨raw, cut, read⟩ := field
  obtain ⟨scan, scanned, fin⟩ := scanned_of_parse acc
  obtain ⟨rest, whole, -⟩ := eq_ended_append cut
  rcases scanned.last with ⟨none, -⟩ | ⟨front, raw', after', value', found, cut', read', last', readable, boundary, kept⟩
  · exact absurd ⟨value, read⟩ (none raw (by rw [cut]; simp))
  · obtain ⟨rfl, rfl, rfl⟩ := last_unique (cut.symm.trans cut') ⟨value, read⟩ ⟨value', read'⟩ last last'
    have eq : value' = value := by
      rw [read] at read'
      cases read'
      rfl
    have front : input.take (ended SOH before).length = ended SOH before := by
      rw [whole, take_left]
    unfold Scan.finish at fin
    split at fin
    · cases fin
    · rw [boundary, kept] at fin
      dsimp only at fin
      split at fin
      · cases fin
      next equal => rw [← eq, readable, ← Classical.not_not.mp equal, front]

theorem digit_char {c : Char} (digit : c.isDigit) : ∃ k, k < 10 ∧ c = Nat.digitChar k := by
  have bounds : 48 ≤ c.toNat ∧ c.toNat ≤ 57 := by
    simpa [Char.isDigit, UInt32.le_iff_toNat_le] using digit
  have t : ∀ k : Fin 10, Char.ofNat (k.val + 48) = Nat.digitChar k.val := by decide
  refine ⟨c.toNat - 48, by omega, ?_⟩
  rw [← t ⟨c.toNat - 48, by omega⟩, Nat.sub_add_cancel bounds.1, Char.ofNat_toNat]

theorem stripPlus_of_digits (ds : (utf8 value).all isAsciiDigit) : stripPlus value.toList = value.toList := by
  unfold stripPlus
  split
  next rest signed =>
    rw [← String.ofList_toList (s := value), signed, utf8_ofList] at ds
    have plus : isAsciiDigit 0x2b = false := rfl
    simp [String.utf8EncodeChar, plus] at ds
  · rfl

/-- A checksum that can be read spells a number of three digits, narrowed to a byte. -/
theorem checksumValue_eq_some (read : checksumValue value = some found) :
    found = UInt8.ofNat (spelled value) ∧ ∃ a b c, a < 10 ∧ b < 10 ∧ c < 10 ∧
      value.toList = [a.digitChar, b.digitChar, c.digitChar] := by
  unfold checksumValue at read
  split at read
  · cases read
  next shape =>
    have parts : (utf8 value).length = 3 ∧ (utf8 value).all isAsciiDigit = true := by simpa using shape
    obtain ⟨num, parsed, rfl⟩ := Option.map_eq_some_iff.mp read
    unfold parseUnsigned at parsed
    rw [stripPlus_of_digits parts.2] at parsed
    dsimp only at parsed
    split at parsed
    next fits =>
      cases parsed
      refine ⟨rfl, ?_⟩
      have ds : ∀ c ∈ value.toList, c.isDigit := by simpa using fits.2.1
      have ascii : ∀ c ∈ value.toList, c.toNat ≤ 0x7f := by
        intro c mem
        have bounds : 48 ≤ c.toNat ∧ c.toNat ≤ 57 := by
          simpa [Char.isDigit, UInt32.le_iff_toNat_le] using ds c mem
        omega
      have three : value.toList.length = 3 := by
        rw [← parts.1, utf8_of_ascii ascii, length_map]
      obtain ⟨x, y, z, shape⟩ := length_eq_three.mp three
      rw [shape] at ds ⊢
      obtain ⟨a, smallA, rfl⟩ := digit_char (ds x (by simp))
      obtain ⟨b, smallB, rfl⟩ := digit_char (ds y (by simp))
      obtain ⟨c, smallC, rfl⟩ := digit_char (ds z (by simp))
      exact ⟨a, b, c, smallA, smallB, smallC, rfl⟩
    · cases parsed

theorem spelled_padded {n : Nat} (small : n < 256) : spelled (padded 3 n) = n := by
  have t : ∀ k : Fin 256, spelled (padded 3 k.val) = k.val := by decide +kernel
  exact t ⟨n, small⟩

theorem eq_padded_of_spelled (read : checksumValue value = some found) (small : spelled value < 256) :
    value = padded 3 (spelled value) := by
  obtain ⟨-, a, b, c, smallA, smallB, smallC, shape⟩ := checksumValue_eq_some read
  have ds : ∀ k : Fin 10, (Nat.digitChar k.val).toNat - 48 = k.val := by decide
  have num : spelled value = 100 * a + 10 * b + c := by
    have first := ds ⟨a, smallA⟩
    have second := ds ⟨b, smallB⟩
    have third := ds ⟨c, smallC⟩
    dsimp only at first second third
    rw [spelled, shape]
    simp only [Nat.ofDigitChars, foldl_cons, foldl_nil, show ('0'.toNat) = 48 from rfl]
    omega
  apply String.toList_injective
  have hundreds : spelled value / 100 = a := by omega
  have tens : spelled value / 10 % 10 = b := by omega
  have units : spelled value % 10 = c := by omega
  rw [padded_three small, shape, hundreds, tens, units]

theorem byteTotal_set (new : UInt8) (found : bs[i]? = some old) :
    byteTotal (bs.set i new) + old.toNat = byteTotal bs + new.toNat := by
  induction bs generalizing i with
  | nil => cases found
  | cons byte rest ih =>
    cases i with
    | zero =>
      cases found
      simp only [byteTotal, set_cons_zero, map_cons, sum_cons]
      omega
    | succ i =>
      have tail := ih found
      simp only [byteTotal, set_cons_succ, map_cons, sum_cons] at tail ⊢
      omega

theorem checksumOf_set_ne (found : bs[i]? = some old) (changed : new ≠ old) :
    checksumOf (bs.set i new) ≠ checksumOf bs := by
  intro eq
  have totals := congrArg UInt8.toNat eq
  rw [checksumOf_toNat, checksumOf_toNat] at totals
  have balance := byteTotal_set new found
  simp only [byteTotal] at balance
  have oldSmall := old.toNat_lt
  have newSmall := new.toNat_lt
  exact changed (UInt8.toNat_inj.mp (by omega))

/-- The last field is the checksum, and its digits are those of the sum of the bytes before it. -/
def TrailerSound (input : List UInt8) (message : FixMessage) : Prop :=
  ∃ before value after, ChecksumAfter input before value after ∧ after.filterMap readField = [] ∧
    message.fields.getLast? = some ⟨Tags.CHECK_SUM, value⟩ ∧ value = padded 3 (byteTotal (ended SOH before) % 256)

theorem last_field_segment (acc : FixMessage.parse input = .ok message)
    (last : message.fields.getLast? = some ⟨Tags.CHECK_SUM, value⟩) :
    ∃ pre post, ChecksumAfter input pre value post ∧ post.filterMap readField = [] := by
  obtain ⟨scan, scanned, -⟩ := scanned_of_parse acc
  rw [parse_fields acc] at last
  have mem := mem_filterMap.mp (mem_of_getLast? last)
  rcases scanned.last with ⟨none, -⟩ | ⟨pre, raw, post, value', found, cut, read, later, -⟩
  · obtain ⟨raw, hi, read⟩ := mem
    exact absurd ⟨value, read⟩ (none raw hi)
  · have empty : post.filterMap readField = [] := by
      rw [eq_nil_iff_forall_not_mem]
      intro field hi
      have ne : post.filterMap readField ≠ [] := ne_nil_of_mem hi
      rw [cut, filterMap_append, filterMap_cons_some read, List.getLast?_append_of_ne_nil _ (by simp),
        List.getLast?_cons_of_ne_nil ne] at last
      obtain ⟨other, h, isRead⟩ := mem_filterMap.mp (mem_of_getLast? last)
      exact later other h ⟨value, isRead⟩
    rw [cut, filterMap_append, filterMap_cons_some read, empty, List.getLast?_append_of_ne_nil _ (by simp)]
      at last
    cases last
    exact ⟨pre, post, ⟨raw, cut, read⟩, empty⟩

theorem not_isChecksum_of_filterMap (empty : after.filterMap readField = []) :
    ∀ other ∈ after, ¬ IsChecksum other := by
  rintro other mem ⟨v, read⟩
  have unread := filterMap_eq_nil_iff.mp empty other mem
  rw [read] at unread
  cases unread

/-- A byte that changes before a checksum field, within its segment. -/
def ChangesBefore (input : List UInt8) (before : List (List UInt8)) (i : Nat) (new : UInt8) : Prop :=
  i < (ended SOH before).length ∧ new ≠ SOH ∧ ∃ old, input[i]? = some old ∧ old ≠ SOH ∧ new ≠ old

theorem change_rejected (acc : FixMessage.parse input = .ok message)
    (field : ChecksumAfter input before value after) (change : ChangesBefore input before i new) :
    ∃ refusal, FixMessage.parse (input.set i new) = .error refusal := by
  obtain ⟨raw, cut, read⟩ := field
  obtain ⟨within, newFree, old, found, oldFree, changed⟩ := change
  -- The comparison is made at the last checksum, which the change also precedes.
  have one : ∃ other ∈ raw :: after, IsChecksum other := ⟨raw, mem_cons_self, value, read⟩
  obtain ⟨more, raw', after', tail, ⟨value', read'⟩, later⟩ := exists_last one
  rw [tail, ← append_assoc] at cut
  have hi : i < (ended SOH (before ++ more)).length := by
    rw [ended_append, length_append]
    omega
  obtain ⟨rest, whole, cutRest⟩ := eq_ended_append cut
  have free : ∀ part ∈ before ++ more, SOH ∉ part := fun part mem =>
    not_mem_of_mem_pieces (by rw [cut]; exact mem_append_left _ mem)
  have foundFront : (ended SOH (before ++ more))[i]? = some old := by
    rwa [whole, List.getElem?_append_left hi] at found
  obtain ⟨segments, eq, clean⟩ := set_ended free foundFront oldFree newFree
  have moved : input.set i new = ended SOH segments ++ rest := by
    rw [whole, set_append_left _ _ hi, eq]
  have cutMoved : pieces SOH (input.set i new) = segments ++ raw' :: after' := by
    rw [moved, pieces_ended_append clean, cutRest]
  cases out : FixMessage.parse (input.set i new) with
  | error refusal => exact ⟨refusal, rfl⟩
  | ok other =>
    have first := parse_compares acc ⟨raw', cut, read'⟩ later
    have second := parse_compares out ⟨raw', cutMoved, read'⟩ later
    rw [first, ← eq, Option.some.injEq] at second
    exact absurd second.symm (checksumOf_set_ne foundFront changed)

/-- The digits of the trailer are the sum of what precedes it exactly when the last segment with a field has a
checksum below 256; a changed byte before a checksum field is refused in any case. -/
theorem checksum_sound_iff (input : List UInt8) (message : FixMessage) (accepted : FixMessage.parse input = .ok message) :
    (TrailerSound input message ↔
      ∃ value, ((pieces SOH input).filterMap readField).getLast? = some ⟨Tags.CHECK_SUM, value⟩ ∧ spelled value < 256) ∧
    ∀ before value after, ChecksumAfter input before value after → ∀ i new, ChangesBefore input before i new →
      ∃ refusal, FixMessage.parse (input.set i new) = .error refusal := by
  rw [← parse_fields accepted]
  refine ⟨⟨?_, ?_⟩, fun before value after field i new change => change_rejected accepted field change⟩
  · rintro ⟨before, value, after, -, -, last, digits⟩
    refine ⟨value, last, ?_⟩
    have small : byteTotal (ended SOH before) % 256 < 256 := Nat.mod_lt _ (by decide)
    rw [digits, spelled_padded small]
    exact small
  · rintro ⟨value, last, small⟩
    obtain ⟨before, after, field, empty⟩ := last_field_segment accepted last
    refine ⟨before, value, after, field, empty, last, ?_⟩
    have compared := parse_compares accepted field (not_isChecksum_of_filterMap empty)
    have num : spelled value = byteTotal (ended SOH before) % 256 := by
      have narrowed := congrArg UInt8.toNat (checksumValue_eq_some compared).1
      rw [checksumOf_toNat, UInt8.toNat_ofNat'] at narrowed
      simp only [byteTotal]
      omega
    rw [← num]
    exact eq_padded_of_spelled compared small

def heartbeatFrame : List UInt8 := utf8 "35=0\x0110=214\x01"

theorem checksum_sound_heartbeat :
    TrailerSound heartbeatFrame ⟨[⟨Tags.MSG_TYPE, "0"⟩, ⟨Tags.CHECK_SUM, "214"⟩]⟩ ∧
      ∃ refusal, FixMessage.parse (heartbeatFrame.set 3 0x31) = .error refusal := by
  have accepted : FixMessage.parse heartbeatFrame = .ok ⟨[⟨Tags.MSG_TYPE, "0"⟩, ⟨Tags.CHECK_SUM, "214"⟩]⟩ := by
    decide +kernel
  obtain ⟨trailer, changes⟩ := checksum_sound_iff heartbeatFrame _ accepted
  refine ⟨trailer.mpr ⟨"214", by decide +kernel, by decide⟩, changes [utf8 "35=0"] "214" [[]] ?_ 3 0x31 ?_⟩
  · exact ⟨utf8 "10=214", by decide +kernel, by decide +kernel⟩
  · exact ⟨by decide, by decide, 0x30, by decide +kernel, by decide, by decide⟩

/-- A field after the checksum is taken, and so are three digits above 255. -/
theorem checksum_not_sound :
    (∃ message, FixMessage.parse (utf8 "35=0\x0110=214\x0158=x") = .ok message ∧
      message.get Tags.CHECK_SUM = some "214" ∧ ¬ TrailerSound (utf8 "35=0\x0110=214\x0158=x") message) ∧
    ∃ message, FixMessage.parse (utf8 "35=0\x0110=470") = .ok message ∧
      message.get Tags.CHECK_SUM = some "470" ∧ ¬ TrailerSound (utf8 "35=0\x0110=470") message := by
  refine ⟨⟨⟨[⟨Tags.MSG_TYPE, "0"⟩, ⟨Tags.CHECK_SUM, "214"⟩, ⟨Tags.TEXT, "x"⟩]⟩, by decide +kernel, rfl, ?_⟩,
    ⟨⟨[⟨Tags.MSG_TYPE, "0"⟩, ⟨Tags.CHECK_SUM, "470"⟩]⟩, by decide +kernel, rfl, ?_⟩⟩
  · rintro ⟨pre, val, post, -, -, last, -⟩
    cases last
  · rintro ⟨pre, val, post, -, -, last, digits⟩
    have small : byteTotal (ended SOH pre) % 256 < 256 := Nat.mod_lt _ (by decide)
    have num : spelled "470" < 256 := by
      cases last
      rw [digits, spelled_padded small]
      exact small
    exact absurd num (by decide)

end Atomr.Fix
