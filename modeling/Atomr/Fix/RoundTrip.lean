import Atomr.Fix.Message

/-! Parsing what the encoder wrote.

The encoder's output is the concatenation of one segment for each of its
fields. The parser's split undoes the concatenation as long as no value
contains the delimiter, and the scan then reads the fields back one by one.
-/

namespace Atomr.Fix

open Library.Text List

variable (f : FixField)

def FixField.segment : List UInt8 := utf8 (f.tag.toNat.repr ++ "=" ++ f.value)

variable (fields : List FixField)

def encodeFields : List UInt8 := fields.flatMap fun f => f.segment ++ [SOH]

def FixField.Clean : Prop := SOH ∉ utf8 f.value
deriving Decidable

theorem utf8_equals_sign : utf8 "=" = [0x3d] := by decide

theorem pushField_eq (buf : List UInt8) (tg : UInt32) (v : String) :
    pushField buf tg v = buf ++ encodeFields [⟨tg, v⟩] := by
  simp [pushField, encodeFields, FixField.segment, utf8_append, utf8_equals_sign]

theorem encodeFields_append (first second : List FixField) :
    encodeFields (first ++ second) = encodeFields first ++ encodeFields second := by
  simp [encodeFields]

theorem length_encodeFields_cons (rest : List FixField) :
    (encodeFields (f :: rest)).length = f.segment.length + 1 + (encodeFields rest).length := by
  simp only [encodeFields, flatMap_cons, length_append, length_singleton]

theorem segment_ne_nil : f.segment ≠ [] := by
  simp [FixField.segment, utf8_append, utf8_equals_sign]

theorem soh_not_mem_repr (n : Nat) : SOH ∉ utf8 n.repr := by
  have ascii : ∀ c ∈ n.repr.toList, c.toNat ≤ 0x7f := by
    intro c mem
    have bounds := digit_bounds mem
    omega
  rw [utf8_of_ascii ascii]
  intro mem
  obtain ⟨c, digit, eq⟩ := mem_map.mp mem
  have bounds := digit_bounds digit
  have v := congrArg UInt8.toNat eq
  simp only [UInt8.toNat_ofNat', SOH, UInt8.toNat_ofNat] at v
  omega

theorem soh_not_mem_segment {f : FixField} (clean : f.Clean) : SOH ∉ f.segment := by
  have equals : SOH ∉ utf8 "=" := by simp [utf8_equals_sign, SOH]
  have tg := soh_not_mem_repr f.tag.toNat
  have v : SOH ∉ utf8 f.value := clean
  simp [FixField.segment, utf8_append, equals, tg, v]

theorem split_encodeFields (clean : ∀ f ∈ fields, f.Clean) :
    (encodeFields fields).splitOnP (· == SOH) = fields.map FixField.segment ++ [[]] := by
  induction fields with
  -- The delimiter after the last field leaves one empty segment.
  | nil => simp [encodeFields]
  | cons f rest ih =>
    obtain ⟨first, later⟩ := forall_mem_cons.mp clean
    have free : ∀ byte ∈ f.segment, (byte == SOH) = false := by
      intro byte mem
      have ne : byte ≠ SOH := fun eq => soh_not_mem_segment first (eq ▸ mem)
      simpa using ne
    have shape : encodeFields (f :: rest) = f.segment ++ SOH :: encodeFields rest := by
      simp [encodeFields]
    rw [shape, splitOnP_append_cons_of_forall_mem free SOH (by simp), ih later]
    simp

theorem splitOnce_segment :
    splitOnce ['='] (f.tag.toNat.repr ++ "=" ++ f.value).toList
      = some (f.tag.toNat.repr.toList, f.value.toList) := by
  have ha : '=' ∉ f.tag.toNat.repr.toList := by
    intro mem
    have bounds := digit_bounds mem
    simp at bounds
  have tx : (f.tag.toNat.repr ++ "=" ++ f.value).toList = f.tag.toNat.repr.toList ++ '=' :: f.value.toList := by
    simp
  rw [tx, splitOnce_of_not_mem ha]

theorem scan_segment (scan : Scan) (f : FixField) : scan.segment f.segment = scan.field f.segment.length f := by
  have ne : f.segment.isEmpty = false := by simpa using segment_ne_nil f
  have dec : ofUtf8 f.segment = some (f.tag.toNat.repr ++ "=" ++ f.value) := ofUtf8_utf8 _
  have num : parseUnsigned (2 ^ 32) f.tag.toNat.repr.toList = some f.tag.toNat := parseUnsigned_repr f.tag.toNat_lt
  simp only [Scan.segment, ne, dec, splitOnce_segment, num, Bool.false_eq_true, if_false,
    UInt32.ofNat_toNat, String.ofList_toList]

theorem scan_fields (scan : Scan) (plain : ∀ f ∈ fields, f.tag ≠ Tags.CHECK_SUM) :
    (fields.map FixField.segment).foldlM Scan.segment scan
      = .ok { scan with
          fields := scan.fields ++ fields
          offset := scan.offset + (encodeFields fields).length } := by
  induction fields generalizing scan with
  | nil => simp [encodeFields, pure, Except.pure]
  | cons f rest ih =>
    obtain ⟨first, later⟩ := forall_mem_cons.mp plain
    simp only [map_cons, foldlM_cons, scan_segment, Scan.field, first]
    simp [bind, Except.bind, ih _ later, length_encodeFields_cons, Nat.add_assoc]

variable {n : Nat}

theorem padded_three (small : n < 256) :
    (padded 3 n).toList = [(n / 100).digitChar, (n / 10 % 10).digitChar, (n % 10).digitChar] := by
  have t : ∀ k : Fin 256, (Nat.toDigits 10 k.val).leftpad 3 '0'
      = [(k.val / 100).digitChar, (k.val / 10 % 10).digitChar, (k.val % 10).digitChar] := by
    decide +kernel
  simpa [padded] using t ⟨n, small⟩

theorem checksum_readable (small : n < 256) :
    checksumValue (padded 3 n) = some (UInt8.ofNat n) ∧ SOH ∉ utf8 (padded 3 n) := by
  -- A checksum is one byte, so every value it can have is looked at.
  have t : ∀ k : Fin 256,
      checksumValue (padded 3 k.val) = some (UInt8.ofNat k.val) ∧ SOH ∉ utf8 (padded 3 k.val) := by
    decide +kernel
  exact t ⟨n, small⟩

variable (bytes : List UInt8)

theorem byteSum_toNat : (byteSum bytes).toNat = (bytes.map UInt8.toNat).sum % 2 ^ 32 := by
  have general : ∀ (rest : List UInt8) (sum : UInt32),
      (rest.foldl (fun sum byte => sum + byte.toUInt32) sum).toNat
        = (sum.toNat + (rest.map UInt8.toNat).sum) % 2 ^ 32 := by
    intro rest
    induction rest with
    | nil => intro sum; simp [Nat.mod_eq_of_lt sum.toNat_lt]
    | cons byte rest ih =>
      simp only [foldl_cons, ih, UInt32.toNat_add, UInt8.toNat_toUInt32, map_cons, sum_cons]
      omega
  simpa [byteSum] using general bytes 0

theorem checksumOf_toNat : (checksumOf bytes).toNat = (bytes.map UInt8.toNat).sum % 256 := by
  have width : UInt32.toNat 256 = 256 := rfl
  simp only [checksumOf, UInt32.toNat_toUInt8, UInt32.toNat_mod, byteSum_toNat, width]
  omega

theorem sum_bytes_le : (bytes.map UInt8.toNat).sum ≤ 255 * bytes.length := by
  induction bytes with
  | nil => simp
  | cons byte rest ih =>
    have small := byte.toNat_lt
    simp only [map_cons, sum_cons, length_cons]
    omega

/-- A frame that ends in its own checksum is read back field by field. -/
theorem parse_with_checksum (plain : ∀ f ∈ fields, f.tag ≠ Tags.CHECK_SUM) (clean : ∀ f ∈ fields, f.Clean) :
    let trailer : FixField := ⟨Tags.CHECK_SUM, padded 3 (checksumOf (encodeFields fields)).toNat⟩
    FixMessage.parse (encodeFields (fields ++ [trailer])) = .ok ⟨fields ++ [trailer]⟩ := by
  intro trailer
  obtain ⟨readable, free⟩ := checksum_readable (checksumOf (encodeFields fields)).toNat_lt
  have allClean : ∀ f ∈ fields ++ [trailer], f.Clean := forall_mem_append.mpr ⟨clean, forall_mem_singleton.mpr free⟩
  have ne : (encodeFields (fields ++ [trailer])).isEmpty = false := by
    simp [encodeFields]
  have prefixBytes :
      (encodeFields (fields ++ [trailer])).take (encodeFields fields).length = encodeFields fields := by
    simp [encodeFields_append]
  have lastSegment : ∀ scan : Scan, scan.segment [] = .ok { scan with offset := scan.offset + 1 } := fun _ => rfl
  unfold FixMessage.parse
  rw [ne, split_encodeFields _ allClean, map_append, append_assoc, foldlM_append,
    scan_fields fields _ plain]
  -- The trailer is the only segment the comparison depends on.
  simpa [bind, Except.bind, pure, Except.pure, scan_segment, Scan.field, trailer, readable, lastSegment, Scan.start,
    Scan.finish] using congrArg checksumOf prefixBytes

namespace FixMessage

def copied (m : FixMessage) : List FixField := m.fields.filter fun f => !isFraming f.tag

theorem body_eq (m : FixMessage) :
    m.body = encodeFields (⟨Tags.MSG_TYPE, (m.get Tags.MSG_TYPE).getD ""⟩ :: m.copied) := by
  have general : ∀ (fs : List FixField) (buf : List UInt8),
      fs.foldl (fun buf f => if isFraming f.tag then buf else pushField buf f.tag f.value) buf
        = buf ++ encodeFields (fs.filter fun f => !isFraming f.tag) := by
    intro fs
    induction fs with
    | nil => simp [encodeFields]
    | cons f rest ih =>
      by_cases framing : isFraming f.tag
      · simp [framing, ih]
      · simp only [foldl_cons, ih]
        simp [framing, pushField_eq, encodeFields]
  rw [body, general, pushField_eq, nil_append, ← encodeFields_append, singleton_append, copied]

def framed (m : FixMessage) (beginString msgType : String) : List FixField :=
  ⟨Tags.BEGIN_STRING, beginString⟩ :: ⟨Tags.BODY_LENGTH, m.body.length.repr⟩ ::
    ⟨Tags.MSG_TYPE, msgType⟩ :: m.copied

variable {m : FixMessage} {msgType : String} {tag : UInt32} {beginString : String}

theorem toWire_eq (starts : (m.get Tags.BEGIN_STRING).getD "FIX.4.4" = beginString)
    (typed : m.get Tags.MSG_TYPE = some msgType) :
    let fs := m.framed beginString msgType
    m.toWire
      = encodeFields (fs ++ [⟨Tags.CHECK_SUM, padded 3 (checksumOf (encodeFields fs)).toNat⟩]) := by
  have body : m.body = encodeFields (⟨Tags.MSG_TYPE, msgType⟩ :: m.copied) := by
    rw [body_eq, typed, Option.getD_some]
  have joined : ∀ header : List FixField,
      encodeFields header ++ m.body = encodeFields (header ++ ⟨Tags.MSG_TYPE, msgType⟩ :: m.copied) := by
    intro header
    rw [encodeFields_append, body]
  simp only [toWire, starts, pushField_eq, nil_append, ← encodeFields_append, joined]
  rfl

theorem get_clean {v : String} (clean : ∀ f ∈ m.fields, f.Clean) (found : m.get tag = some v) :
    SOH ∉ utf8 v := by
  obtain ⟨f, first, eq⟩ := Option.map_eq_some_iff.mp found
  have fieldClean : SOH ∉ utf8 f.value := clean f (mem_of_find?_eq_some first)
  rwa [eq] at fieldClean

theorem framed_plain (m : FixMessage) (begin msgType : String) :
    ∀ f ∈ m.framed begin msgType, f.tag ≠ Tags.CHECK_SUM := by
  have copied : ∀ f ∈ m.copied, f.tag ≠ Tags.CHECK_SUM := by
    intro f mem eq
    have kept := (mem_filter.mp mem).2
    simp [isFraming, eq] at kept
  simpa [framed, Tags.BEGIN_STRING, Tags.BODY_LENGTH, Tags.MSG_TYPE, Tags.CHECK_SUM] using copied

theorem framed_clean (starts : (m.get Tags.BEGIN_STRING).getD "FIX.4.4" = beginString)
    (typed : m.get Tags.MSG_TYPE = some msgType) (clean : ∀ f ∈ m.fields, f.Clean) :
    ∀ f ∈ m.framed beginString msgType, f.Clean := by
  have beginClean : SOH ∉ utf8 beginString := by
    rw [← starts]
    cases found : m.get Tags.BEGIN_STRING with
    | none => decide
    | some v => exact get_clean clean found
  have copiedClean : ∀ f ∈ m.copied, f.Clean := fun f mem => clean f (mem_filter.mp mem).1
  simpa [framed, FixField.Clean, beginClean, soh_not_mem_repr, get_clean clean typed] using copiedClean

theorem find_copied (m : FixMessage) (plain : isFraming tag = false) :
    m.copied.find? (fun f => f.tag == tag) = m.fields.find? (fun f => f.tag == tag) := by
  rw [copied, List.find?_filter]
  congr 1
  funext f
  by_cases eq : f.tag = tag
  · simp [eq, plain]
  · simp [eq]

theorem get_around_copied (typed : m.get Tags.MSG_TYPE = some msgType) (begin checkSum : String)
    (other : tag ∉ [8, 9, 10]) :
    get ⟨m.framed begin msgType ++ [⟨Tags.CHECK_SUM, checkSum⟩]⟩ tag = m.get tag := by
  have notBegin : tag ≠ Tags.BEGIN_STRING := fun eq => other (eq ▸ by decide)
  have notLength : tag ≠ Tags.BODY_LENGTH := fun eq => other (eq ▸ by decide)
  have notSum : tag ≠ Tags.CHECK_SUM := fun eq => other (eq ▸ by decide)
  by_cases isType : tag = Tags.MSG_TYPE
  · rw [isType, typed]
    simp [get, framed, Tags.BEGIN_STRING, Tags.BODY_LENGTH, Tags.MSG_TYPE]
  · have plain : isFraming tag = false := by simp [isFraming, notBegin, notLength, notSum, isType]
    have unch := m.find_copied plain
    simp [get, framed, unch, Ne.symm notBegin, Ne.symm notLength, Ne.symm notSum, Ne.symm isType]

theorem copied_eq (m : FixMessage) : m.copied = m.fields.filter fun f => f.tag ∉ [8, 9, 10, 35] := by
  unfold copied
  simp [isFraming, Tags.BEGIN_STRING, Tags.BODY_LENGTH, Tags.MSG_TYPE, Tags.CHECK_SUM]
  grind

/-- Encoding and parsing a message: the header, every field the encoder copies, and the trailer. -/
theorem parse_toWire (m : FixMessage) (msgType : String) (typed : m.get Tags.MSG_TYPE = some msgType)
    (clean : ∀ f ∈ m.fields, SOH ∉ utf8 f.value) (short : m.toWire.length < 2 ^ 24) :
    ∃ (beginString bodyLength checkSum : String) (header body : List UInt8) (sum : Nat),
      let parsed : FixMessage :=
        ⟨[⟨8, beginString⟩, ⟨9, bodyLength⟩, ⟨35, msgType⟩]
          ++ m.fields.filter (fun f => f.tag ∉ [8, 9, 10, 35]) ++ [⟨10, checkSum⟩]⟩
      FixMessage.parse m.toWire = .ok parsed
        ∧ header = pushField (pushField [] 8 beginString) 9 bodyLength
        ∧ m.toWire = pushField (header ++ body) 10 checkSum
        ∧ bodyLength = body.length.repr
        ∧ sum = ((header ++ body).map UInt8.toNat).sum ∧ sum < 2 ^ 32
        ∧ checkSum.toList
            = [(sum % 256 / 100).digitChar, (sum % 256 / 10 % 10).digitChar, (sum % 256 % 10).digitChar]
        ∧ ∀ tag ∉ [8, 9, 10], parsed.get tag = m.get tag := by
  obtain ⟨beginString, starts⟩ : ∃ text, (m.get Tags.BEGIN_STRING).getD "FIX.4.4" = text := ⟨_, rfl⟩
  have wire := toWire_eq starts typed
  have read := parse_with_checksum _ (m.framed_plain beginString msgType) (framed_clean starts typed clean)
  obtain ⟨header, written⟩ :
      ∃ bytes, encodeFields [⟨8, beginString⟩, ⟨9, m.body.length.repr⟩] = bytes := ⟨_, rfl⟩
  have encoded : encodeFields (m.framed beginString msgType) = header ++ m.body := by
    rw [body_eq, typed, ← written, ← encodeFields_append]
    rfl
  simp only [encoded, checksumOf_toNat] at wire read
  -- The length bound is what keeps the 32-bit accumulator from wrapping.
  have bdd : ((header ++ m.body).map UInt8.toNat).sum < 2 ^ 32 := by
    have total := sum_bytes_le (header ++ m.body)
    simp only [wire, encodeFields_append, encoded, length_append] at short total
    omega
  have around := fun tag (other : tag ∉ [8, 9, 10]) =>
    m.get_around_copied typed beginString (padded 3 (((header ++ m.body).map UInt8.toNat).sum % 256)) other
  rw [← wire] at read
  simp only [framed, copied_eq] at read around
  refine ⟨beginString, m.body.length.repr, padded 3 (((header ++ m.body).map UInt8.toNat).sum % 256), header,
    m.body, _, ?_, ?_, ?_, rfl, rfl, bdd, padded_three (Nat.mod_lt _ (by decide)), ?_⟩
  · exact read
  · simp [← written, pushField_eq, encodeFields]
  · rw [wire, encodeFields_append, encoded, pushField_eq]
    rfl
  · exact around

theorem parse_toWire_order :
    let m : FixMessage := ⟨[⟨35, "D"⟩, ⟨55, "A=B"⟩, ⟨10, "x"⟩, ⟨55, "10=0"⟩]⟩
    ∃ parsed, FixMessage.parse m.toWire = .ok parsed ∧ parsed.get 55 = some "A=B" := by
  intro m
  have typed : m.get Tags.MSG_TYPE = some "D" := by decide
  have clean : ∀ f ∈ m.fields, SOH ∉ utf8 f.value := by decide
  have short : m.toWire.length < 2 ^ 24 := by decide +kernel
  obtain ⟨_, _, _, _, _, _, read, _, _, _, _, _, _, agree⟩ := m.parse_toWire "D" typed clean short
  exact ⟨_, read, agree 55 (by decide)⟩

end FixMessage

end Atomr.Fix
