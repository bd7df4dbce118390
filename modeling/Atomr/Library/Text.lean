import Mathlib.Algebra.Ring.Nat

/-! Text as characters and as UTF-8 bytes: numbers, splitting at a pattern, encoding.

A number is read as the standard `FromStr` of the fixed-width unsigned types
reads it: an optional plus sign, at least one digit, no overflow.
-/

namespace Atomr.Library.Text

open List

def stripPlus : List Char → List Char
  | '+' :: rest => rest
  | text => text

def parseUnsigned (bound : Nat) (text : List Char) : Option Nat :=
  let digits := stripPlus text
  if digits ≠ [] ∧ digits.all Char.isDigit ∧ Nat.ofDigitChars 10 digits 0 < bound then
    some (Nat.ofDigitChars 10 digits 0)
  else none

def parseSigned (bound : Nat) : List Char → Option Int
  | '-' :: digits =>
    if digits ≠ [] ∧ digits.all Char.isDigit ∧ Nat.ofDigitChars 10 digits 0 ≤ bound then
      some (-(Nat.ofDigitChars 10 digits 0 : Int))
    else none
  | text => (parseUnsigned bound text).map Int.ofNat

/-- What precedes and what follows the first occurrence of a pattern. -/
def splitOnce (pattern : List Char) : List Char → Option (List Char × List Char)
  | [] => if pattern = [] then some ([], []) else none
  | c :: rest =>
    if pattern.isPrefixOf (c :: rest) then some ([], (c :: rest).drop pattern.length)
    else (splitOnce pattern rest).map fun (before, after) => (c :: before, after)

def stripPrefix (start text : String) : Option String :=
  if start.toList.isPrefixOf text.toList then some (String.ofList (text.toList.drop start.toList.length)) else none

theorem stripPrefix_eq_some {start tx rest : String} : stripPrefix start tx = some rest ↔ tx = start ++ rest := by
  constructor
  · intro found
    unfold stripPrefix at found
    split at found
    next starts =>
      cases found
      obtain ⟨post, cut⟩ := isPrefixOf_iff_prefix.mp starts
      rw [← String.toList_inj, ← cut]
      simp
    · cases found
  · rintro rfl
    simp [stripPrefix]

def stripSuffix (ending text : String) : Option String :=
  if ending.toList.isSuffixOf text.toList then
    some (String.ofList (text.toList.take (text.toList.length - ending.toList.length)))
  else none

theorem stripSuffix_eq_some {ending tx rest : String} : stripSuffix ending tx = some rest ↔ tx = rest ++ ending := by
  constructor
  · intro found
    unfold stripSuffix at found
    split at found
    next ends =>
      cases found
      obtain ⟨pre, cut⟩ := isSuffixOf_iff_suffix.mp ends
      rw [← String.toList_inj, ← cut]
      simp
    · cases found
  · rintro rfl
    simp [stripSuffix]

variable {bound n : Nat} {c : Char} {chars m : List Char}

theorem stripPlus_digits (ds : ∀ c ∈ chars, c.isDigit) : stripPlus chars = chars := by
  unfold stripPlus
  split
  · exact absurd (ds '+' mem_cons_self) (by decide)
  · rfl

theorem parseUnsigned_digits (ds : ∀ c ∈ chars, c.isDigit) (ne : chars ≠ [])
    (small : Nat.ofDigitChars 10 chars 0 < bound) : parseUnsigned bound chars = some (Nat.ofDigitChars 10 chars 0) := by
  simp only [parseUnsigned, stripPlus_digits ds]
  exact if_pos ⟨ne, all_eq_true.mpr ds, small⟩

theorem isDigit_repr (n : Nat) : ∀ c ∈ n.repr.toList, c.isDigit := by
  intro c mem
  rw [Nat.toList_repr] at mem
  exact Nat.isDigit_of_mem_toDigits (by decide) (by decide) mem

theorem parseUnsigned_repr (small : n < bound) : parseUnsigned bound n.repr.toList = some n := by
  have v : Nat.ofDigitChars 10 n.repr.toList 0 = n := by
    rw [Nat.toList_repr, Nat.ofDigitChars_ten_toDigits]
  have ne : n.repr.toList ≠ [] := by
    rw [Nat.toList_repr]
    exact Nat.toDigits_ne_nil
  rw [parseUnsigned_digits (isDigit_repr n) ne (v.symm ▸ small), v]

theorem parseUnsigned_lt {tx : List Char} (parsed : parseUnsigned bound tx = some n) : n < bound := by
  simp only [parseUnsigned] at parsed
  split at parsed
  next fits =>
    cases parsed
    exact fits.2.2
  · cases parsed

theorem splitOnce_of_not_mem {pre : List Char} (ha : c ∉ pre) (post : List Char) :
    splitOnce [c] (pre ++ c :: post) = some (pre, post) := by
  induction pre with
  | nil => simp [splitOnce]
  | cons first rest ih =>
    have ne : c ≠ first := fun eq => ha (eq ▸ mem_cons_self)
    have later := ih fun mem => ha (mem_cons_of_mem first mem)
    simp [splitOnce, ne, later]

theorem splitOnce_eq_none (ha : c ∉ chars) : splitOnce [c] chars = none := by
  induction chars with
  | nil => rfl
  | cons first rest ih =>
    obtain ⟨ne, later⟩ := not_or.mp (mt mem_cons.mpr ha)
    simp [splitOnce, ne, ih later]

def utf8 (s : String) : List UInt8 := s.toByteArray.data.toList

def ofUtf8 (bytes : List UInt8) : Option String := String.fromUTF8? bytes.toByteArray

theorem utf8_append (s t : String) : utf8 (s ++ t) = utf8 s ++ utf8 t := by
  simp [utf8]

theorem utf8_ofList (chars : List Char) : utf8 (String.ofList chars) = chars.flatMap String.utf8EncodeChar := by
  simp [utf8, List.utf8Encode]

theorem ofUtf8_utf8 (s : String) : ofUtf8 (utf8 s) = some s := by
  have bs : (utf8 s).toByteArray = s.toByteArray := by
    simp [utf8, ByteArray.ext_iff]
  simp [ofUtf8, bs, String.fromUTF8?, s.isValidUTF8, String.fromUTF8]

theorem utf8_of_ascii {s : String} (ascii : ∀ c ∈ s.toList, c.toNat ≤ 0x7f) :
    utf8 s = s.toList.map fun c => UInt8.ofNat c.toNat := by
  have enc : ∀ chars : List Char, (∀ c ∈ chars, c.toNat ≤ 0x7f) →
      chars.flatMap String.utf8EncodeChar = chars.map fun c => UInt8.ofNat c.toNat := by
    intro chars small
    induction chars with
    | nil => rfl
    | cons c rest ih =>
      obtain ⟨first, later⟩ := forall_mem_cons.mp small
      have single : String.utf8EncodeChar c = [UInt8.ofNat c.toNat] := if_pos first
      simp [single, ih later]
  rw [← enc s.toList ascii, ← utf8_ofList, String.ofList_toList]

theorem isDigit_bounds (digit : c.isDigit) : 0x30 ≤ c.toNat ∧ c.toNat ≤ 0x39 := by
  simpa [Char.isDigit, UInt32.le_iff_toNat_le] using digit

theorem digit_bounds (mem : c ∈ n.repr.toList) : 0x30 ≤ c.toNat ∧ c.toNat ≤ 0x39 :=
  isDigit_bounds (isDigit_repr n c mem)

theorem ofDigitChars_cons_zero (c : Char) (chars : List Char) :
    Nat.ofDigitChars 10 (c :: chars) 0 = 10 ^ chars.length * (c.toNat - 0x30) + Nat.ofDigitChars 10 chars 0 := by
  rw [Nat.ofDigitChars_cons, Nat.ofDigitChars_eq_ofDigitChars_zero, mul_zero, zero_add]
  rfl

theorem ofDigitChars_lt (ds : ∀ c ∈ chars, c.isDigit) : Nat.ofDigitChars 10 chars 0 < 10 ^ chars.length := by
  induction chars with
  | nil => exact Nat.one_pos
  | cons c chars ih =>
    obtain ⟨first, later⟩ := forall_mem_cons.mp ds
    have digit : 10 ^ chars.length * (c.toNat - 0x30) ≤ 10 ^ chars.length * 9 :=
      Nat.mul_le_mul_left _ (Nat.sub_le_of_le_add (isDigit_bounds first).2)
    have rest := ih later
    rw [ofDigitChars_cons_zero, length_cons, pow_succ]
    omega

theorem ofDigitChars_lt_of_lt (lengths : chars.length = m.length) (ds : ∀ c ∈ chars, c.isDigit) (less : chars < m) :
    Nat.ofDigitChars 10 chars 0 < Nat.ofDigitChars 10 m 0 := by
  induction chars generalizing m with
  | nil => simp [eq_nil_of_length_eq_zero lengths.symm] at less
  | cons c chars ih =>
    obtain ⟨d, m, rfl⟩ := exists_cons_of_length_eq_add_one lengths.symm
    have rest : chars.length = m.length := Nat.succ.inj lengths
    obtain ⟨first, later⟩ := forall_mem_cons.mp ds
    rw [ofDigitChars_cons_zero, ofDigitChars_cons_zero, ← rest]
    rcases cons_lt_cons_iff.mp less with smaller | ⟨rfl, below⟩
    · have smaller : c.toNat - 0x30 + 1 ≤ d.toNat - 0x30 :=
        Nat.sub_lt_sub_right (isDigit_bounds first).1 smaller
      calc 10 ^ chars.length * (c.toNat - 0x30) + Nat.ofDigitChars 10 chars 0
        _ < 10 ^ chars.length * (c.toNat - 0x30 + 1) := Nat.add_lt_add_left (ofDigitChars_lt later) _
        _ ≤ 10 ^ chars.length * (d.toNat - 0x30) + Nat.ofDigitChars 10 m 0 :=
          Nat.le_add_right_of_le (Nat.mul_le_mul_left _ smaller)
    · exact Nat.add_lt_add_left (ih rest later below) _

/-- Digit strings of one length compare as their values. -/
theorem ofDigitChars_lt_iff (lengths : chars.length = m.length) (left : ∀ c ∈ chars, c.isDigit) (right : ∀ c ∈ m, c.isDigit) :
    Nat.ofDigitChars 10 chars 0 < Nat.ofDigitChars 10 m 0 ↔ chars < m := by
  refine ⟨fun less => List.not_le.mp fun ge => ?_, ofDigitChars_lt_of_lt lengths left⟩
  rcases List.le_iff_lt_or_eq.mp ge with greater | rfl
  · exact lt_asymm less (ofDigitChars_lt_of_lt lengths.symm right greater)
  · exact lt_irrefl _ less

end Atomr.Library.Text
