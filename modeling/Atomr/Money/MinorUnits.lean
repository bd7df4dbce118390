import Mathlib.Data.Rat.Floor

/-! Amounts of money in minor units.

A decimal is a mantissa of 96 bits with a scale, and an amount has several of them. Rounding to some places leaves a
decimal alone that has no more.
-/

namespace Atomr

structure Decimal where
  mantissa : Int
  scale : Nat
  fits : mantissa.natAbs < 2 ^ 96
  places : scale ≤ 28

/-- The quotient rounded to the nearest integer, and to the even one of two. -/
def nearestEven (n : Int) (d : Nat) : Int :=
  if 2 * (n % d) < d ∨ 2 * (n % d) = d ∧ n / d % 2 = 0 then n / d else n / d + 1

theorem natAbs_nearestEven_le (n : Int) {d : Nat} (pos : 0 < d) : (nearestEven n d).natAbs ≤ n.natAbs := by
  have quotient : (n / d).natAbs ≤ n.natAbs := Int.natAbs_ediv_le_natAbs n d
  have whole := Int.mul_ediv_add_emod n d
  have rest := Int.emod_nonneg n (Int.natCast_ne_zero.mpr (ne_of_gt pos))
  unfold nearestEven
  split
  · exact quotient
  next up =>
    rcases lt_or_ge n 0 with negative | nonneg
    · have below := Int.ediv_neg_of_neg_of_pos negative (Int.natCast_pos.mpr pos)
      omega
    · have above := Int.ediv_nonneg nonneg (Int.natCast_nonneg d)
      have grows : n / d ≤ d * (n / d) := le_mul_of_one_le_left above (by omega)
      omega

namespace Decimal

def value (x : Decimal) : ℚ := x.mantissa / 10 ^ x.scale

def fromI128WithScale (mantissa : Int) (scale : Nat) : Option Decimal :=
  if valid : mantissa.natAbs < 2 ^ 96 ∧ scale ≤ 28 then some ⟨mantissa, scale, valid.1, valid.2⟩ else none

def roundDp (x : Decimal) (dp : Nat) : Decimal :=
  if more : dp < x.scale then
    { mantissa := nearestEven x.mantissa (10 ^ (x.scale - dp))
      scale := dp
      fits := Nat.lt_of_le_of_lt (natAbs_nearestEven_le _ (Nat.pow_pos (by decide))) x.fits
      places := Nat.le_trans (Nat.le_of_lt more) x.places }
  else x

end Decimal

structure Currency where
  minorUnits : UInt8

structure Money where
  amount : Decimal
  currency : Currency

/-- Rounding half to even. -/
def halfEven (x : ℚ) : Int :=
  if Int.fract x < 1 / 2 ∨ Int.fract x = 1 / 2 ∧ ⌊x⌋ % 2 = 0 then ⌊x⌋ else ⌊x⌋ + 1

theorem halfEven_intCast (n : Int) : halfEven n = n := by
  simp [halfEven]

theorem halfEven_div (n : Int) {d : Nat} (pos : 0 < d) : halfEven (n / d) = nearestEven n d := by
  have pos : (0 : ℚ) < d := Nat.cast_pos.mpr pos
  have floor : ⌊(n / d : ℚ)⌋ = n / d := Rat.floor_intCast_div_natCast n d
  have fract : Int.fract (n / d : ℚ) = (n % d : Int) / d := Int.fract_div_intCast_eq_div_intCast_mod
  have less : ((n % d : Int) / d : ℚ) < 1 / 2 ↔ 2 * (n % d) < d := by
    rw [div_lt_div_iff₀ pos two_pos, one_mul, mul_comm]
    norm_cast
  have tie : ((n % d : Int) / d : ℚ) = 1 / 2 ↔ 2 * (n % d) = d := by
    rw [div_eq_div_iff pos.ne' two_ne_zero, one_mul, mul_comm]
    norm_cast
  simp only [halfEven, nearestEven, fract, floor, less, tie]

namespace Money

def fromMinor (units : Int) (currency : Currency) : Option Money :=
  (Decimal.fromI128WithScale units currency.minorUnits.toNat).map fun amount => ⟨amount, currency⟩

variable (m : Money)

def toMinor : Int := (m.amount.roundDp m.currency.minorUnits.toNat).mantissa

/-- The amount in minor units, before it is rounded. -/
def inMinor : ℚ := m.amount.value * 10 ^ m.currency.minorUnits.toNat

/-- The amount is rounded half to even, and comes back where there is nothing to round. -/
def Exact : Prop :=
  m.toMinor = halfEven m.inMinor ∧ ∀ n : Int, m.inMinor = n →
    ∃ back, fromMinor m.toMinor m.currency = some back ∧ back.amount.value = m.amount.value

def Scaled : Prop :=
  m.currency.minorUnits.toNat ≤ m.amount.scale ∨ m.amount.mantissa = 0 ∧ m.currency.minorUnits.toNat ≤ 28
deriving Decidable

variable {m}

theorem ten_pow_ne_zero (n : Nat) : (10 : ℚ) ^ n ≠ 0 := pow_ne_zero n (by decide)

theorem inMinor_of_le (le : m.currency.minorUnits.toNat ≤ m.amount.scale) :
    m.inMinor = m.amount.mantissa / (10 ^ (m.amount.scale - m.currency.minorUnits.toNat) : Nat) := by
  obtain ⟨more, eq⟩ := Nat.exists_eq_add_of_le le
  rw [inMinor, Decimal.value, eq, Nat.add_sub_cancel_left, add_comm, pow_add, div_mul_eq_mul_div,
    mul_div_mul_right _ _ (ten_pow_ne_zero _)]
  simp

theorem inMinor_of_ge (ge : m.amount.scale ≤ m.currency.minorUnits.toNat) :
    m.inMinor = (m.amount.mantissa * 10 ^ (m.currency.minorUnits.toNat - m.amount.scale) : Int) := by
  obtain ⟨more, eq⟩ := Nat.exists_eq_add_of_le ge
  rw [inMinor, Decimal.value, eq, Nat.add_sub_cancel_left, pow_add, ← mul_assoc,
    div_mul_cancel₀ _ (ten_pow_ne_zero _)]
  simp

theorem toMinor_eq_iff :
    m.toMinor = halfEven m.inMinor ↔ m.currency.minorUnits.toNat ≤ m.amount.scale ∨ m.amount.mantissa = 0 := by
  unfold toMinor Decimal.roundDp
  rcases lt_or_ge m.amount.scale m.currency.minorUnits.toNat with fewer | enough
  · have grows : (10 : Int) ^ (m.currency.minorUnits.toNat - m.amount.scale) ≠ 1 :=
      (one_lt_pow₀ (by decide) (Nat.sub_ne_zero_of_lt fewer)).ne'
    rw [inMinor_of_ge fewer.le, halfEven_intCast, dif_neg fewer.not_gt, eq_comm, mul_right_eq_self₀]
    simp [grows, fewer.not_ge]
  · refine iff_of_true ?_ (.inl enough)
    rw [inMinor_of_le enough, halfEven_div _ (Nat.pow_pos (by decide))]
    split
    · rfl
    next exactly =>
      rw [Nat.sub_eq_zero_of_le (Nat.not_lt.mp exactly)]
      simp [nearestEven]

theorem exact_iff : m.Exact ↔ m.Scaled := by
  rw [Exact, toMinor_eq_iff]
  constructor
  · rintro ⟨enough | zero, back⟩
    · exact .inl enough
    · obtain ⟨_, made, -⟩ := back 0 (by simp [inMinor, Decimal.value, zero])
      obtain ⟨_, made, -⟩ := Option.map_eq_some_iff.mp made
      obtain ⟨valid, -⟩ := Option.dite_none_right_eq_some.mp made
      exact .inr ⟨zero, valid.2⟩
  · intro scaled
    refine ⟨scaled.imp_right And.left, fun n whole => ?_⟩
    have units : m.toMinor = n := by
      rw [toMinor_eq_iff.mpr (scaled.imp_right And.left), whole, halfEven_intCast]
    have places : m.currency.minorUnits.toNat ≤ 28 := scaled.elim (·.trans m.amount.places) And.right
    have fits : m.toMinor.natAbs < 2 ^ 96 := (m.amount.roundDp _).fits
    refine ⟨⟨⟨m.toMinor, _, fits, places⟩, m.currency⟩, congrArg (Option.map _) (dif_pos ⟨fits, places⟩), ?_⟩
    change (m.toMinor : ℚ) / 10 ^ m.currency.minorUnits.toNat = _
    rw [units, ← whole, inMinor, mul_div_cancel_right₀ _ (ten_pow_ne_zero _)]

/-- The amount is given in minor units and comes back exactly when its decimal has all their places, or is a zero.
Equal amounts with such decimals are equal in minor units. -/
theorem minor_units_iff (m other : Money) :
    (m.Exact ↔ m.Scaled) ∧ (m.Scaled → other.Scaled → other.currency = m.currency →
      other.amount.value = m.amount.value → other.toMinor = m.toMinor) := by
  refine ⟨exact_iff, fun scaled others same equal => ?_⟩
  rw [(exact_iff.mpr scaled).1, (exact_iff.mpr others).1, inMinor, inMinor, same, equal]

/-- Ten dollars without places are ten cents. -/
theorem ten_dollars_are_ten_cents :
    let dollars : Money := ⟨⟨10, 0, by decide, by decide⟩, ⟨2⟩⟩
    let cents : Money := ⟨⟨1000, 2, by decide, by decide⟩, ⟨2⟩⟩
    dollars.amount.value = cents.amount.value ∧ dollars.toMinor = 10 ∧ cents.toMinor = 1000 ∧
      halfEven dollars.inMinor = 1000 := by
  decide +kernel

end Money

end Atomr
