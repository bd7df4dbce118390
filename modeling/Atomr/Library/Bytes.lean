import Mathlib.Data.Nat.Digits.Defs

/-! Fixed-width numbers in both byte orders, and cutting a list into pieces of one size. -/

namespace Atomr.Library.Bytes

open List

def littleEndian (width n : Nat) : List UInt8 := (List.range width).map fun i => UInt8.ofNat (n / 256 ^ i)

def ofLittleEndian (bytes : List UInt8) : Nat := Nat.ofDigits 256 (bytes.map UInt8.toNat)

@[simp] theorem length_littleEndian (width n : Nat) : (littleEndian width n).length = width := by
  simp [littleEndian]

theorem ofLittleEndian_littleEndian (width n : Nat) :
    ofLittleEndian (littleEndian width n) = n % 256 ^ width := by
  induction width generalizing n with
  | zero => simp [ofLittleEndian, littleEndian, Nat.mod_one]
  | succ width ih =>
    -- The lowest byte comes first; what follows it are the bytes of the quotient.
    have shifted : ∀ i, n / 256 ^ (i + 1) = n / 256 / 256 ^ i := by
      intro i
      rw [Nat.pow_succ', Nat.div_div_eq_div_mul]
    have split : littleEndian (width + 1) n = UInt8.ofNat n :: littleEndian width (n / 256) := by
      simp [littleEndian, range_succ_eq_map, shifted]
    rw [split, Nat.pow_succ', Nat.mod_mul, ← ih (n / 256)]
    simp [ofLittleEndian, Nat.ofDigits_cons]

def bigEndian (width n : Nat) : List UInt8 := (littleEndian width n).reverse

def ofBigEndian (bytes : List UInt8) : Nat := ofLittleEndian bytes.reverse

@[simp] theorem length_bigEndian (width n : Nat) : (bigEndian width n).length = width := by
  simp [bigEndian]

theorem ofBigEndian_bigEndian (width n : Nat) : ofBigEndian (bigEndian width n) = n % 256 ^ width := by
  rw [ofBigEndian, bigEndian, reverse_reverse, ofLittleEndian_littleEndian]

section Pieces

variable {α : Type}

def divCeil (n d : Nat) : Nat :=
  if 0 < n % d then n / d + 1 else n / d

def piecesWithin (size : Nat) : Nat → List α → List (List α)
  | 0, _ => []
  | fuel + 1, items =>
    if items.isEmpty then [] else items.take size :: piecesWithin size fuel (items.drop size)

def pieces (size : Nat) (items : List α) : List (List α) := piecesWithin size items.length items

variable {fuel size : Nat} {xs : List α}

theorem length_drop_le (pos : 1 ≤ size) (enough : xs.length ≤ fuel + 1) : (xs.drop size).length ≤ fuel := by
  rw [length_drop]
  omega

theorem flatten_piecesWithin (pos : 1 ≤ size) (enough : xs.length ≤ fuel) :
    (piecesWithin size fuel xs).flatten = xs := by
  induction fuel generalizing xs with
  | zero => simp [piecesWithin, length_eq_zero_iff.mp (Nat.le_zero.mp enough)]
  | succ fuel ih =>
    unfold piecesWithin
    split
    next empty => simpa using (isEmpty_iff.mp empty).symm
    next ne =>
      rw [flatten_cons, ih (length_drop_le pos enough), take_append_drop]

theorem flatten_pieces (pos : 1 ≤ size) (xs : List α) : (pieces size xs).flatten = xs :=
  flatten_piecesWithin pos Nat.le.refl

theorem divCeil_sub {n d : Nat} (pos : 1 ≤ d) (enough : 0 < n) : divCeil n d = divCeil (n - d) d + 1 := by
  unfold divCeil
  by_cases small : n < d
  · have none : n - d = 0 := by omega
    simp [Nat.mod_eq_of_lt small, Nat.div_eq_of_lt small, none, enough]
  · have quotient := Nat.div_eq_sub_div pos (Nat.le_of_not_lt small)
    have remainder := Nat.mod_eq_sub_mod (Nat.le_of_not_lt small)
    rw [quotient, remainder]
    split <;> rfl

theorem length_piecesWithin (pos : 1 ≤ size) (enough : xs.length ≤ fuel) :
    (piecesWithin size fuel xs).length = divCeil xs.length size := by
  induction fuel generalizing xs with
  | zero => simp [piecesWithin, Nat.le_zero.mp enough, divCeil]
  | succ fuel ih =>
    unfold piecesWithin
    split
    next empty => simp [isEmpty_iff.mp empty, divCeil]
    next ne =>
      have some : 0 < xs.length := length_pos_iff.mpr (by simpa using ne)
      rw [length_cons, ih (length_drop_le pos enough), length_drop, divCeil_sub pos some]

theorem length_pieces (pos : 1 ≤ size) (xs : List α) : (pieces size xs).length = divCeil xs.length size :=
  length_piecesWithin pos Nat.le.refl

end Pieces

end Atomr.Library.Bytes
