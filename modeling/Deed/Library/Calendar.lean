import Mathlib

/-!
# The proleptic Gregorian calendar

Dates of every year, before the calendar was made as well as after, with the number of each
date: how many days it is after the first of January 1970.  The date after a date has the next
number, and dates are in the order of their numbers.
-/

namespace Deed.Library.Calendar

/-- A year with a leap day. -/
def Leap (year : ℤ) : Prop := 4 ∣ year ∧ (¬100 ∣ year ∨ 400 ∣ year)

instance (year : ℤ) : Decidable (Leap year) := inferInstanceAs (Decidable (_ ∧ _))

/-- How many days a month has. -/
def monthLength (year month : ℤ) : ℤ :=
  if month = 2 then if Leap year then 29 else 28
  else if month = 4 ∨ month = 6 ∨ month = 9 ∨ month = 11 then 30
  else 31

@[ext]
structure Date where
  year : ℤ
  month : ℤ
  day : ℤ
deriving DecidableEq, Repr

namespace Date

/-- A date that there is. -/
structure Valid (date : Date) : Prop where
  month_pos : 1 ≤ date.month
  month_le : date.month ≤ 12
  day_pos : 1 ≤ date.day
  day_le : date.day ≤ monthLength date.year date.month

/-- The date after a date. -/
def next (date : Date) : Date :=
  if date.day < monthLength date.year date.month then { date with day := date.day + 1 }
  else if date.month < 12 then { date with month := date.month + 1, day := 1 }
  else { year := date.year + 1, month := 1, day := 1 }

/-- One date comes before another. -/
def Before (first second : Date) : Prop :=
  first.year < second.year ∨ first.year = second.year ∧
    (first.month < second.month ∨ first.month = second.month ∧ first.day < second.day)

instance (first second : Date) : Decidable (Before first second) :=
  inferInstanceAs (Decidable (_ ∨ _))

/-! ## Numbers -/

/-- How many days the years before a year have, from the first year on. -/
def daysBefore (year : ℤ) : ℤ :=
  365 * (year - 1) + (year - 1) / 4 - (year - 1) / 100 + (year - 1) / 400

/-- How many days the months before a month have. -/
def monthsBefore (year month : ℤ) : ℤ :=
  ((List.range (month - 1).toNat).map fun before : ℕ => monthLength year ((before : ℤ) + 1)).sum

/-- How many days a date is after 1970-01-01. -/
def number (date : Date) : ℤ :=
  daysBefore date.year + monthsBefore date.year date.month + date.day - 719163

end Date

theorem monthLength_pos (year month : ℤ) : 28 ≤ monthLength year month := by
  unfold monthLength
  split_ifs
  all_goals decide

theorem monthsBefore_succ (year : ℤ) {month : ℤ} (pos : 1 ≤ month) :
    Date.monthsBefore year (month + 1) =
      Date.monthsBefore year month + monthLength year month := by
  have count : (month + 1 - 1).toNat = (month - 1).toNat + 1 := by omega
  have last : ((month - 1).toNat : ℤ) + 1 = month := by omega
  rw [Date.monthsBefore, Date.monthsBefore, count, List.range_succ, List.map_append,
    List.sum_append, List.map_singleton, List.sum_singleton, last]

theorem monthsBefore_mono (year : ℤ) {month later : ℤ} (pos : 1 ≤ month) (order : month ≤ later) :
    Date.monthsBefore year month ≤ Date.monthsBefore year later := by
  induction later, order using Int.leInduction with
  | base => exact le_refl _
  | succ later order ih =>
      have long := monthLength_pos year later
      rw [monthsBefore_succ year (by omega)]
      omega

/-- A year is as long as its months. -/
theorem monthsBefore_year (year : ℤ) :
    Date.monthsBefore year 13 = if Leap year then 366 else 365 := by
  by_cases leap : Leap year
  · rw [if_pos leap]
    simp [Date.monthsBefore, monthLength, leap, List.range_succ]
  · rw [if_neg leap]
    simp [Date.monthsBefore, monthLength, leap, List.range_succ]

theorem daysBefore_succ (year : ℤ) :
    Date.daysBefore (year + 1) = Date.daysBefore year + if Leap year then 366 else 365 := by
  unfold Date.daysBefore
  by_cases leap : Leap year
  · rw [if_pos leap]
    unfold Leap at leap
    omega
  · rw [if_neg leap]
    unfold Leap at leap
    omega

theorem daysBefore_mono {first second : ℤ} (order : first ≤ second) :
    Date.daysBefore first ≤ Date.daysBefore second := by
  unfold Date.daysBefore
  omega

namespace Date

variable {date first second : Date}

/-- The date after a date is one, and has the next number. -/
theorem Valid.next (valid : date.Valid) : date.next.Valid := by
  have month_pos := valid.month_pos
  have month_le := valid.month_le
  have day_pos := valid.day_pos
  unfold Date.next
  split_ifs with more months
  · exact ⟨month_pos, month_le, by show 1 ≤ date.day + 1; omega, by
      show date.day + 1 ≤ monthLength date.year date.month; omega⟩
  · have long := monthLength_pos date.year (date.month + 1)
    exact ⟨by show 1 ≤ date.month + 1; omega, by show date.month + 1 ≤ 12; omega, le_refl 1, by
      show 1 ≤ monthLength date.year (date.month + 1); omega⟩
  · exact ⟨le_refl 1, by show (1 : ℤ) ≤ 12; omega, le_refl 1, by
      have long := monthLength_pos (date.year + 1) 1
      show 1 ≤ monthLength (date.year + 1) 1
      omega⟩

theorem number_next (valid : date.Valid) : date.next.number = date.number + 1 := by
  have month_pos := valid.month_pos
  have month_le := valid.month_le
  have day_le := valid.day_le
  unfold Date.next
  split_ifs with more months
  · unfold number
    show daysBefore date.year + monthsBefore date.year date.month + (date.day + 1) - _ = _
    omega
  · have last := monthsBefore_succ date.year month_pos
    unfold number
    show daysBefore date.year + monthsBefore date.year (date.month + 1) + 1 - _ = _
    omega
  · have twelve : date.month = 12 := by omega
    have last := monthsBefore_succ date.year month_pos
    have year := monthsBefore_year date.year
    have after := daysBefore_succ date.year
    have none_ : monthsBefore (date.year + 1) 1 = 0 := rfl
    rw [show date.month + 1 = 13 by omega] at last
    unfold number
    show daysBefore (date.year + 1) + monthsBefore (date.year + 1) 1 + 1 - _ = _
    omega

/-- A date is among the days of its year. -/
theorem number_bounds (valid : date.Valid) :
    daysBefore date.year < date.number + 719163 ∧
      date.number + 719163 ≤ daysBefore (date.year + 1) := by
  have day_pos := valid.day_pos
  have day_le := valid.day_le
  have month_pos := valid.month_pos
  have month_le := valid.month_le
  have first := monthsBefore_mono date.year (le_refl 1) month_pos
  have none_ : monthsBefore date.year 1 = 0 := rfl
  have next := monthsBefore_succ date.year month_pos
  have last := monthsBefore_mono date.year (show 1 ≤ date.month + 1 by omega)
    (show date.month + 1 ≤ 13 by omega)
  have year := monthsBefore_year date.year
  have after := daysBefore_succ date.year
  unfold number
  constructor
  · omega
  · omega

theorem number_lt (valid : first.Valid) (valid' : second.Valid) (before : first.Before second) :
    first.number < second.number := by
  rcases before with years | ⟨same, months | ⟨same', days⟩⟩
  · have bounds := (number_bounds valid).2
    have bounds' := (number_bounds valid').1
    have between := daysBefore_mono (show first.year + 1 ≤ second.year by omega)
    omega
  · have day_le := valid.day_le
    have day_pos := valid'.day_pos
    have next := monthsBefore_succ first.year valid.month_pos
    have between := monthsBefore_mono first.year (show 1 ≤ first.month + 1 by
      have month_pos := valid.month_pos
      omega) (show first.month + 1 ≤ second.month by omega)
    unfold number
    rw [← same]
    omega
  · unfold number
    rw [← same, ← same']
    omega

/-- The order of dates is that of their numbers. -/
theorem before_iff (valid : first.Valid) (valid' : second.Valid) :
    first.Before second ↔ first.number < second.number := by
  constructor
  · exact number_lt valid valid'
  · intro less
    by_contra not_before
    have order : second.Before first ∨ first = second := by
      unfold Before at not_before ⊢
      rw [Date.ext_iff]
      omega
    rcases order with after | rfl
    · have more := number_lt valid' valid after
      omega
    · omega

/-- A number is that of one date. -/
theorem number_inj (valid : first.Valid) (valid' : second.Valid)
    (same : first.number = second.number) : first = second := by
  have not_before := mt (before_iff valid valid').mp (by omega)
  have not_after := mt (before_iff valid' valid).mp (by omega)
  unfold Before at not_before not_after
  rw [Date.ext_iff]
  omega

end Date

end Deed.Library.Calendar
