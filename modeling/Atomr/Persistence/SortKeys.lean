import Mathlib.Data.String.Basic
import Atomr.Library.Text

/-! The sort keys of the single-table layout. -/

namespace Atomr.Persistence.SortKeys

open Library.Text List

def EVENT_PREFIX : String := "E#"
def SNAPSHOT_PREFIX : String := "S#"

def SK_WIDTH : Nat := 20

/-- What `format!` writes for a number padded with zeros. -/
def padded (n : UInt64) : List Char := (Nat.toDigits 10 n.toNat).leftpad SK_WIDTH '0'

def eventSk (sequenceNr : UInt64) : String := EVENT_PREFIX ++ String.ofList (padded sequenceNr)

def snapshotSk (sequenceNr : UInt64) : String := SNAPSHOT_PREFIX ++ String.ofList (padded sequenceNr)

def parseSequence (sk : String) : Option UInt64 := do
  let stripped ← (stripPrefix EVENT_PREFIX sk).or (stripPrefix SNAPSHOT_PREFIX sk)
  (parseUnsigned UInt64.size stripped.toList).map UInt64.ofNat

/-- The keys of a partition in the given range, as a query returns them: in key order. -/
def between (low high : String) (keys : List String) : List String :=
  (keys.filter fun sk => low ≤ sk ∧ sk ≤ high).mergeSort (· ≤ ·)

variable {a b : UInt64}

theorem value_padded (a : UInt64) : Nat.ofDigitChars 10 (padded a) 0 = a.toNat := by
  rw [padded, List.leftpad, Nat.ofDigitChars_append, Nat.ofDigitChars_replicate_zero, Nat.mul_zero,
    Nat.ofDigitChars_ten_toDigits]

theorem digits_padded (a : UInt64) : ∀ c ∈ padded a, c.isDigit := by
  intro c mem
  rcases mem_append.mp mem with zero | digit
  · rw [eq_of_mem_replicate zero]
    rfl
  · exact Nat.isDigit_of_mem_toDigits (by decide) (by decide) digit

theorem length_padded (a : UInt64) : (padded a).length = SK_WIDTH := by
  have short : (Nat.toDigits 10 a.toNat).length ≤ SK_WIDTH :=
    (Nat.length_toDigits_le_iff (by decide) (by decide)).mpr (Nat.lt_trans a.toNat_lt (by decide))
  rw [padded, length_leftpad, Nat.max_eq_left short]

theorem eventSk_lt : eventSk a < eventSk b ↔ a < b := by
  have lengths : (padded a).length = (padded b).length := (length_padded a).trans (length_padded b).symm
  rw [UInt64.lt_iff_toNat_lt, ← value_padded a, ← value_padded b,
    ofDigitChars_lt_iff lengths (digits_padded a) (digits_padded b), String.lt_iff_toList_lt]
  simp [eventSk, EVENT_PREFIX]

theorem eventSk_le : eventSk a ≤ eventSk b ↔ a ≤ b := by
  rw [← not_lt, eventSk_lt, UInt64.not_lt]

theorem padded_ne_nil (a : UInt64) : padded a ≠ [] := ne_nil_of_length_pos ((length_padded a).symm ▸ Nat.succ_pos 19)

theorem parse_padded (a : UInt64) : (parseUnsigned UInt64.size (padded a)).map UInt64.ofNat = some a := by
  rw [parseUnsigned_digits (digits_padded a) (padded_ne_nil a) (value_padded a ▸ a.toNat_lt), value_padded]
  simp

theorem parseSequence_eventSk (a : UInt64) : parseSequence (eventSk a) = some a := by
  have start : stripPrefix EVENT_PREFIX (eventSk a) = some (String.ofList (padded a)) := stripPrefix_eq_some.mpr rfl
  simp [parseSequence, start, parse_padded]

theorem parseSequence_snapshotSk (a : UInt64) : parseSequence (snapshotSk a) = some a := by
  have other : stripPrefix EVENT_PREFIX (snapshotSk a) = none := by
    simp [stripPrefix, snapshotSk, EVENT_PREFIX, SNAPSHOT_PREFIX]
  have start : stripPrefix SNAPSHOT_PREFIX (snapshotSk a) = some (String.ofList (padded a)) :=
    stripPrefix_eq_some.mpr rfl
  simp [parseSequence, other, start, parse_padded]

theorem between_eventSk (low high : UInt64) (nrs : List UInt64) :
    between (eventSk low) (eventSk high) (nrs.map eventSk) =
      ((nrs.filter fun n => low ≤ n ∧ n ≤ high).mergeSort (· ≤ ·)).map eventSk := by
  have same : (nrs.map eventSk).filter (fun sk => eventSk low ≤ sk ∧ sk ≤ eventSk high) =
      (nrs.filter fun n => low ≤ n ∧ n ≤ high).map eventSk := by
    simp [filter_map, Function.comp_def, eventSk_le]
  rw [between, same]
  exact (map_mergeSort fun a _ b _ => decide_eq_decide.mpr eventSk_le.symm).symm

/-- The keys order the events by their numbers, have one length and give the numbers back. A scan of a range has
the events of these numbers, in their order. -/
theorem sort_keys_preserve_order (a b : UInt64) (sequenceNrs : List UInt64) :
    (eventSk a < eventSk b ↔ a < b) ∧ (eventSk a).length = (eventSk b).length ∧
    parseSequence (eventSk a) = some a ∧ parseSequence (snapshotSk a) = some a ∧
    (between (eventSk a) (eventSk b) (sequenceNrs.map eventSk)).map parseSequence =
      ((sequenceNrs.filter fun n => a ≤ n ∧ n ≤ b).mergeSort (· ≤ ·)).map some := by
  refine ⟨eventSk_lt, ?_, parseSequence_eventSk a, parseSequence_snapshotSk a, ?_⟩
  · simp [eventSk, length_padded]
  · rw [between_eventSk, map_map]
    exact map_congr_left fun n _ => parseSequence_eventSk n

end Atomr.Persistence.SortKeys
