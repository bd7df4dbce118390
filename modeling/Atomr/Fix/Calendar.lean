import Atomr.Fix.Session

/-! The calendar of the sending time.

The conversion counts years from March, so that the leap day is the last of its year. Each day falls at one place in
one such year, and the place of the next day follows from it.
-/

namespace Atomr.Fix

open Bool

def isLeap (year : Nat) : Bool := year % 4 == 0 && (year % 100 != 0 || year % 400 == 0)

def monthLength (leap : Bool) (month : Nat) : Nat :=
  if month = 2 then (if leap then 29 else 28)
  else if month = 4 ∨ month = 6 ∨ month = 9 ∨ month = 11 then 30 else 31

/-- Year, month and day. -/
abbrev Date := Nat × Nat × Nat

def Date.Valid (date : Date) : Prop :=
  1 ≤ date.2.1 ∧ date.2.1 ≤ 12 ∧ 1 ≤ date.2.2 ∧ date.2.2 ≤ monthLength (isLeap date.1) date.2.1

def nextWith (leap : Bool) : Date → Date
  | (y, m, d) =>
    if d < monthLength leap m then (y, m, d + 1) else if m < 12 then (y, m + 1, 1) else (y + 1, 1, 1)

def nextDay (date : Date) : Date := nextWith (isLeap date.1) date

/-- The days of the years from March on before this one. -/
def daysBefore (year : Nat) : Nat := 365 * year + year / 4 - year / 100 + year / 400

def yearLength (year : Nat) : Nat := 365 + (isLeap (year + 1)).toNat

def Falls (z year doy : Nat) : Prop := z + 719468 = daysBefore year + doy ∧ doy < yearLength year

/-- The date in the March-based year 0. -/
def dateIn (doy : Nat) : Date :=
  let mp := (5 * doy + 2) / 153
  let m := if mp < 10 then mp + 3 else mp - 9
  (if m ≤ 2 then 1 else 0, m, doy - (153 * mp + 2) / 5 + 1)

def Date.inYear (year : Nat) (date : Date) : Date := (year + date.1, date.2)

variable {z year doy : Nat}

theorem exists_digits (year : Nat) : ∃ e c q r, c < 4 ∧ q < 25 ∧ r < 4 ∧ year = 400 * e + 100 * c + 4 * q + r :=
  ⟨year / 400, year % 400 / 100, year % 100 / 4, year % 4, by omega, by omega, by omega, by omega⟩

section Digits

variable {e c q r : Nat} (century : c < 4) (four : q < 25) (single : r < 4)
include century four single

theorem isLeap_digits : isLeap (400 * e + 100 * c + 4 * q + r + 1) ↔ r = 3 ∧ (q = 24 → c = 3) := by
  simp only [isLeap, and_eq_true, beq_iff_eq, or_eq_true, bne_iff_ne]
  omega

theorem daysBefore_digits : daysBefore (400 * e + 100 * c + 4 * q + r) = 146097 * e + 36524 * c + 1461 * q + 365 * r := by
  unfold daysBefore
  omega

end Digits

theorem daysBefore_succ (year : Nat) : daysBefore (year + 1) = daysBefore year + yearLength year := by
  obtain ⟨e, c, q, r, century, four, single, rfl⟩ := exists_digits year
  obtain ⟨e', c', q', r', century', four', single', next⟩ := exists_digits (400 * e + 100 * c + 4 * q + r + 1)
  have leap := isLeap_digits century four single (e := e)
  rw [yearLength, daysBefore_digits century four single]
  cases long : isLeap (400 * e + 100 * c + 4 * q + r + 1) with
  | true =>
    obtain ⟨rfl, last⟩ := leap.mp long
    rw [next, daysBefore_digits century' four' single', toNat_true]
    omega
  | false =>
    have ord : r < 3 ∨ r = 3 ∧ q = 24 ∧ c < 3 := by
      have short : ¬(r = 3 ∧ (q = 24 → c = 3)) := leap.not.mp (by simp [long])
      omega
    rw [next, daysBefore_digits century' four' single', toNat_false]
    obtain rfl : e' = e := by omega
    rcases ord with within | ⟨rfl, rfl, within⟩
    · obtain rfl : c' = c := by omega
      omega
    · omega

theorem Falls.next (falls : Falls z year doy) :
    (doy + 1 < yearLength year ∧ Falls (z + 1) year (doy + 1)) ∨
      (doy + 1 = yearLength year ∧ Falls (z + 1) (year + 1) 0) := by
  obtain ⟨days, hi⟩ := falls
  rcases Nat.lt_or_eq_of_le hi with more | last
  · exact .inl ⟨more, by omega, more⟩
  · refine .inr ⟨last, ?_, lt_of_lt_of_le (by decide) (Nat.le_add_right 365 _)⟩
    rw [daysBefore_succ]
    omega

theorem exists_falls (z : Nat) : ∃ year doy, Falls z year doy := by
  induction z with
  | zero => exact ⟨1969, 306, rfl, by decide⟩
  | succ z ih =>
    obtain ⟨year, doy, falls⟩ := ih
    rcases falls.next with ⟨-, later⟩ | ⟨-, later⟩
    · exact ⟨year, doy + 1, later⟩
    · exact ⟨year + 1, 0, later⟩

section Era

variable {c q r doe : Nat}

theorem yoe_of_carry {s u : Nat} (days : doe = 36524 * c + 1461 * q + 365 * r + doy) (low : s ≤ doy)
    (high : doy < 365 + s) : (doe - (25 * c + q + s) + (c + u) - u) / 365 = 100 * c + 4 * q + r := by
  have whole : doe - (25 * c + q + s) + (c + u) - u = 365 * (100 * c + 4 * q + r) + (doy - s) := by omega
  have rest : doy - s < 365 := by omega
  rw [whole, Nat.mul_add_div (by decide), Nat.div_eq_of_lt rest, add_zero]

/-- The year of the era, of which the centuries, the groups of four and the single years are known. -/
theorem yoe_eq (century : c < 4) (four : q < 25) (single : r < 4)
    (hi : doy < 365 ∨ doy = 365 ∧ r = 3 ∧ (q = 24 → c = 3)) (days : doe = 36524 * c + 1461 * q + 365 * r + doy) :
    (doe - doe / 1460 + doe / 36524 - doe / 146096) / 365 = 100 * c + 4 * q + r := by
  -- The division by 1460 is one too high on the last days of four years, as the remainder of the days is.
  have years : doe / 1460 = 25 * c + q + (24 * c + q + 365 * r + doy) / 1460 := by omega
  have low : (24 * c + q + 365 * r + doy) / 1460 ≤ doy := by omega
  have high : doy < 365 + (24 * c + q + 365 * r + doy) / 1460 := by omega
  have centuries : doe / 36524 = c + doe / 146096 := by
    by_cases last : doy = 365 ∧ q = 24
    · obtain ⟨rfl, rfl⟩ := last
      obtain ⟨rfl, rfl⟩ : r = 3 ∧ c = 3 := by omega
      rw [days]
    · have before : doe / 146096 = 0 := by omega
      omega
  rw [years, centuries]
  exact yoe_of_carry days low high

end Era

theorem civil_of_falls (falls : Falls z year doy) : civilFromDays z = (dateIn doy).inYear year := by
  obtain ⟨days, hi⟩ := falls
  obtain ⟨e, c, q, r, century, four, single, rfl⟩ := exists_digits year
  have leap := isLeap_digits century four single (e := e)
  rw [daysBefore_digits century four single] at days
  have hi : doy < 365 ∨ doy = 365 ∧ r = 3 ∧ (q = 24 → c = 3) := by
    rw [← leap]
    unfold yearLength at hi
    cases long : isLeap (400 * e + 100 * c + 4 * q + r + 1) with
    | true =>
      rw [long, toNat_true] at hi
      simpa using Nat.lt_succ_iff_lt_or_eq.mp hi
    | false =>
      rw [long] at hi
      exact .inl hi
  have era : (z + 719468) / 146097 = e := by omega
  have doe : z + 719468 - e * 146097 = 36524 * c + 1461 * q + 365 * r + doy := by omega
  have start : 365 * (100 * c + 4 * q + r) + (100 * c + 4 * q + r) / 4 - (100 * c + 4 * q + r) / 100 =
      36524 * c + 1461 * q + 365 * r := by
    have fours : (100 * c + 4 * q + r) / 4 = 25 * c + q := by omega
    have hundreds : (100 * c + 4 * q + r) / 100 = c := by omega
    omega
  have years : 100 * c + 4 * q + r + e * 400 = 400 * e + 100 * c + 4 * q + r := by omega
  simp only [civilFromDays, era, doe, yoe_eq century four single hi rfl, start, years, Nat.add_sub_cancel_left,
    dateIn, Date.inYear]
  exact Prod.ext (apply_ite (_ + ·) _ 1 0).symm rfl

theorem dateIn_table (leap : Bool) (doy : Nat) (hi : doy < 365 + leap.toNat) :
    (1 ≤ (dateIn doy).2.1 ∧ (dateIn doy).2.1 ≤ 12 ∧ 1 ≤ (dateIn doy).2.2 ∧
      (dateIn doy).2.2 ≤ monthLength leap (dateIn doy).2.1) ∧
    nextWith leap (dateIn doy) = if doy + 1 < 365 + leap.toNat then dateIn (doy + 1) else (dateIn 0).inYear 1 := by
  have t : ∀ leap : Bool, ∀ doy : Fin (365 + leap.toNat),
      (1 ≤ (dateIn doy).2.1 ∧ (dateIn doy).2.1 ≤ 12 ∧ 1 ≤ (dateIn doy).2.2 ∧
        (dateIn doy).2.2 ≤ monthLength leap (dateIn doy).2.1) ∧
      nextWith leap (dateIn doy) =
        if doy.val + 1 < 365 + leap.toNat then dateIn (doy + 1) else (dateIn 0).inYear 1 := by decide +kernel
  exact t leap ⟨doy, hi⟩

/-- Only February depends on the year, and it belongs to the next one. -/
theorem monthLength_inYear (year : Nat) (doy : Nat) :
    monthLength (isLeap ((dateIn doy).inYear year).1) (dateIn doy).2.1 =
      monthLength (isLeap (year + 1)) (dateIn doy).2.1 := by
  simp only [Date.inYear, dateIn]
  generalize (if (5 * doy + 2) / 153 < 10 then _ else _) = m
  unfold monthLength
  split
  next february => simp [february]
  · rfl

theorem nextWith_inYear (leap : Bool) (year : Nat) (date : Date) :
    nextWith leap (date.inYear year) = (nextWith leap date).inYear year := by
  obtain ⟨y, m, d⟩ := date
  by_cases more : d < monthLength leap m
  · simp [nextWith, Date.inYear, more]
  · by_cases within : m < 12 <;> simp [nextWith, Date.inYear, more, within, add_assoc]

theorem nextWith_congr {leap leap' : Bool} {date : Date}
    (length : monthLength leap date.2.1 = monthLength leap' date.2.1) : nextWith leap date = nextWith leap' date := by
  obtain ⟨y, m, d⟩ := date
  have length : monthLength leap m = monthLength leap' m := length
  simp only [nextWith, length]

theorem nextDay_inYear (hi : doy < yearLength year) :
    nextDay ((dateIn doy).inYear year) =
      (if doy + 1 < yearLength year then dateIn (doy + 1) else (dateIn 0).inYear 1).inYear year := by
  rw [nextDay, nextWith_inYear, nextWith_congr (monthLength_inYear year doy), (dateIn_table _ _ hi).2]
  rfl

/-- Every day is a date of the calendar, the first is that of the epoch, and each is followed by the next one. -/
theorem civil_from_days_calendar (z : Nat) :
    Date.Valid (civilFromDays z) ∧ civilFromDays 0 = (1970, 1, 1) ∧ civilFromDays (z + 1) = nextDay (civilFromDays z) := by
  obtain ⟨year, doy, falls⟩ := exists_falls z
  rw [civil_of_falls falls]
  refine ⟨?_, by decide, ?_⟩
  · obtain ⟨⟨first, last, day, length⟩, -⟩ := dateIn_table _ _ falls.2
    exact ⟨first, last, day, le_trans length (le_of_eq (monthLength_inYear year doy).symm)⟩
  · rw [nextDay_inYear falls.2]
    rcases falls.next with ⟨more, later⟩ | ⟨last, later⟩
    · rw [civil_of_falls later, if_pos more]
    · rw [civil_of_falls later, if_neg (not_lt.mpr (le_of_eq last.symm))]
      rfl

end Atomr.Fix
