import Deed.Library.Calendar
import Deed.Stdlib.Dates

/-!
# The calendar conversion is right

`civil_of` works in eras of 400 years that begin in March.  The year of an era is read off an
estimate that never goes down from day to day, so that it is enough to look at both ends of
every year of one era; months and days follow from the day of the year.
-/

namespace Deed.Stdlib

open Deed.Library.Calendar (Leap monthLength daysBefore_succ)
open Deed.Wasm (Fits64)

/-! ## Years of an era -/

/-- The days of an era before a year of it, the leap day of a year at its end. -/
def yearStart (year : ℕ) : ℕ := 365 * year + year / 4 - year / 100 + year / 400

theorem cast_yearStart (year : ℕ) :
    (yearStart year : ℤ) =
      365 * (year : ℤ) + (year : ℤ) / 4 - (year : ℤ) / 100 + (year : ℤ) / 400 := by
  unfold yearStart
  omega

/-- What the year of an era is computed from. -/
def estimate (day : ℕ) : ℕ := day - day / 1460 + day / 36524 - day / 146096

theorem estimate_mono {day later : ℕ} (order : day ≤ later) : estimate day ≤ estimate later := by
  have four : ∀ day : ℕ, day / 146096 = day / 36524 / 4 := fun day => by
    rw [Nat.div_div_eq_div_mul]
  have century := Nat.div_le_div_right (c := 36524) order
  unfold estimate
  rw [four, four]
  omega

/-- Both ends of every year, the years in twenties. -/
theorem estimate_twenties : ∀ twenty < 20, ∀ year < 20,
    365 * (20 * twenty + year) ≤ estimate (yearStart (20 * twenty + year)) ∧
      estimate (yearStart (20 * twenty + year + 1) - 1) < 365 * (20 * twenty + year + 1) := by
  decide

theorem estimate_ends {year : ℕ} (inside : year < 400) :
    365 * year ≤ estimate (yearStart year) ∧
      estimate (yearStart (year + 1) - 1) < 365 * (year + 1) := by
  have ends := estimate_twenties (year / 20) (by omega) (year % 20) (Nat.mod_lt _ (by decide))
  rwa [Nat.div_add_mod] at ends

/-- A day of an era is in the year that its estimate says. -/
theorem year_of_estimate {day : ℕ} (inside : day < 146097) :
    estimate day / 365 < 400 ∧ yearStart (estimate day / 365) ≤ day ∧
      day < yearStart (estimate day / 365 + 1) := by
  have last : estimate day ≤ estimate 146096 := estimate_mono (by omega)
  have most : estimate 146096 = 145999 := by decide
  have year : estimate day / 365 < 400 := by omega
  refine ⟨year, ?_, ?_⟩
  · by_contra before
    obtain ⟨earlier, previous⟩ : ∃ earlier, estimate day / 365 = earlier + 1 := by
      cases zero : estimate day / 365 with
      | zero => rw [zero] at before; exact absurd (Nat.zero_le day) before
      | succ earlier => exact ⟨earlier, rfl⟩
    have ends := (estimate_ends (show earlier < 400 by omega)).2
    rw [← previous] at ends
    have less := estimate_mono (show day ≤ yearStart (estimate day / 365) - 1 by omega)
    omega
  · by_contra after
    by_cases final : estimate day / 365 + 1 < 400
    · have begins := (estimate_ends final).1
      have more := estimate_mono (not_lt.mp after)
      omega
    · have end_ : estimate day / 365 + 1 = 400 := by omega
      rw [end_] at after
      have era : yearStart 400 = 146097 := by decide
      omega

/-! ## Months of a year -/

theorem monthLength_eq (year month : ℤ) :
    monthLength year month = if month = 2 then if Leap year then 29 else 28
      else if month = 4 ∨ month = 6 ∨ month = 9 ∨ month = 11 then 30 else 31 := rfl

/-- The days of a year before its months after February. -/
theorem monthsBefore_spring (year month : ℤ) (spring : 3 ≤ month) (last : month ≤ 12) :
    Library.Calendar.Date.monthsBefore year month =
      (153 * (month - 3) + 2) / 5 + 59 + if Leap year then 1 else 0 := by
  by_cases leap : Leap year
  · interval_cases month
    all_goals simp [Library.Calendar.Date.monthsBefore, monthLength, leap, List.range_succ]
  · interval_cases month
    all_goals simp [Library.Calendar.Date.monthsBefore, monthLength, leap, List.range_succ]

/-- The date of a day of a year that begins in March. -/
def springDate (year day : ℤ) : Library.Calendar.Date :=
  let mp := (5 * day + 2) / 153
  let month := if mp < 10 then mp + 3 else mp - 9
  { year := if month ≤ 2 then year + 1 else year, month
    day := day - (153 * mp + 2) / 5 + 1 }

/-- A day that a year beginning in March has is a date, so many days after the year begins. -/
theorem springDate_right {year day : ℤ} (first : 0 ≤ day) (last : day ≤ 365)
    (leap : day = 365 → Leap (year + 1)) :
    (springDate year day).Valid ∧ (springDate year day).number =
      365 * year + year / 4 - year / 100 + year / 400 + day - 719468 := by
  have after := daysBefore_succ year
  have start : Library.Calendar.Date.daysBefore (year + 1) =
      365 * year + year / 4 - year / 100 + year / 400 := by
    unfold Library.Calendar.Date.daysBefore
    rw [Int.add_sub_cancel]
  unfold springDate
  by_cases spring : (5 * day + 2) / 153 < 10
  · have late : ¬(5 * day + 2) / 153 + 3 ≤ 2 := by omega
    have before := monthsBefore_spring year ((5 * day + 2) / 153 + 3) (by omega) (by omega)
    simp only [if_pos spring, if_neg late]
    constructor
    · refine ⟨by show 1 ≤ (5 * day + 2) / 153 + 3; omega, by
        show (5 * day + 2) / 153 + 3 ≤ 12; omega, by
        show 1 ≤ day - _ + 1; omega, ?_⟩
      show day - _ + 1 ≤ monthLength year ((5 * day + 2) / 153 + 3)
      rw [monthLength_eq, if_neg (by omega)]
      split
      · omega
      · omega
    · show Library.Calendar.Date.daysBefore year + _ + (day - _ + 1) - _ = _
      rw [before]
      split at after
      · next leap => rw [if_pos leap]; omega
      · next common => rw [if_neg common]; omega
  · -- January and February belong to the year after
    have early : (5 * day + 2) / 153 - 9 ≤ 2 := by omega
    simp only [if_neg spring, if_pos early]
    have month : (5 * day + 2) / 153 - 9 = 1 ∨ (5 * day + 2) / 153 - 9 = 2 := by omega
    rcases month with january | february
    · have ten : (5 * day + 2) / 153 = 10 := by omega
      rw [january, ten]
      constructor
      · refine ⟨le_refl 1, by show (1 : ℤ) ≤ 12; omega, by show 1 ≤ day - _ + 1; omega, ?_⟩
        show day - _ + 1 ≤ 31
        omega
      · show Library.Calendar.Date.daysBefore (year + 1) + 0 + (day - _ + 1) - _ = _
        omega
    · have eleven : (5 * day + 2) / 153 = 11 := by omega
      rw [february, eleven]
      constructor
      · refine ⟨by show (1 : ℤ) ≤ 2; omega, by show (2 : ℤ) ≤ 12; omega, by
          show 1 ≤ day - _ + 1; omega, ?_⟩
        show day - _ + 1 ≤ monthLength (year + 1) 2
        rw [monthLength_eq, if_pos rfl]
        split
        · omega
        · next common =>
            have short : day ≠ 365 := mt leap common
            omega
      · show Library.Calendar.Date.daysBefore (year + 1) + 31 + (day - _ + 1) - _ = _
        omega

/-- What `civil_of` answers for a day, in exact numbers. -/
def civil (day : ℤ) : Library.Calendar.Date :=
  let z := day + 719468
  let yearOfEra := (z % 146097 - z % 146097 / 1460 + z % 146097 / 36524 - z % 146097 / 146096) / 365
  springDate (yearOfEra + z / 146097 * 400)
    (z % 146097 - (365 * yearOfEra + yearOfEra / 4 - yearOfEra / 100))

theorem leap_era (year era : ℤ) : Leap (year + era * 400) ↔ Leap year := by
  unfold Leap
  omega

/-- A year that is a day longer than the days of a common one has a leap day at its end. -/
theorem leap_of_long {year : ℤ} (long : 365 * year + year / 4 - year / 100 + year / 400 + 365 <
    365 * (year + 1) + (year + 1) / 4 - (year + 1) / 100 + (year + 1) / 400) :
    Leap (year + 1) := by
  by_contra common
  have after := daysBefore_succ (year + 1)
  rw [if_neg common] at after
  unfold Library.Calendar.Date.daysBefore at after
  rw [Int.add_sub_cancel, Int.add_sub_cancel] at after
  omega

/-- The year of an era, and what it has of the days of the era. -/
theorem yearOfEra_spec {day : ℤ} (first : 0 ≤ day) (last : day < 146097) {year : ℤ}
    (computed : year = (day - day / 1460 + day / 36524 - day / 146096) / 365) :
    0 ≤ year ∧ year < 400 ∧ 365 * year + year / 4 - year / 100 ≤ day ∧
      day < 365 * (year + 1) + (year + 1) / 4 - (year + 1) / 100 + (year + 1) / 400 := by
  obtain ⟨number, rfl⟩ := Int.eq_ofNat_of_zero_le first
  have spec := year_of_estimate (show number < 146097 by omega)
  have same : year = (estimate number / 365 : ℕ) := by
    unfold estimate
    omega
  have begins := cast_yearStart (estimate number / 365)
  have ends := cast_yearStart (estimate number / 365 + 1)
  rw [Nat.cast_succ, ← same] at ends
  rw [← same] at begins
  omega

/-- The formulas are right for every day, if they are computed without bounds. -/
theorem civil_right (day : ℤ) :
    (civil day).Valid ∧ (civil day).number = day := by
  have first : 0 ≤ (day + 719468) % 146097 := Int.emod_nonneg _ (by decide)
  have last : (day + 719468) % 146097 < 146097 := Int.emod_lt_of_pos _ (by decide)
  have spec := yearOfEra_spec first last rfl
  have dated : civil day = springDate
      (((day + 719468) % 146097 - (day + 719468) % 146097 / 1460 + (day + 719468) % 146097 / 36524 -
        (day + 719468) % 146097 / 146096) / 365 + (day + 719468) / 146097 * 400) _ := rfl
  rw [dated]
  generalize computed : ((day + 719468) % 146097 - (day + 719468) % 146097 / 1460 +
    (day + 719468) % 146097 / 36524 - (day + 719468) % 146097 / 146096) / 365 = year at spec ⊢
  have leap : (day + 719468) % 146097 - (365 * year + year / 4 - year / 100) = 365 →
      Leap (year + (day + 719468) / 146097 * 400 + 1) := by
    intro final
    have long := leap_of_long (show 365 * year + year / 4 - year / 100 + year / 400 + 365 <
      365 * (year + 1) + (year + 1) / 4 - (year + 1) / 100 + (year + 1) / 400 by omega)
    rw [add_right_comm]
    exact (leap_era _ _).mpr long
  have right := springDate_right (by omega) (by omega) leap
  refine ⟨right.1, right.2.trans ?_⟩
  have whole := Int.emod_add_mul_ediv (day + 719468) 146097
  have fours : ∀ era : ℤ, (year + era * 400) / 4 = year / 4 + era * 100 := by omega
  have centuries : ∀ era : ℤ, (year + era * 400) / 100 = year / 100 + era * 4 := by omega
  have eras : ∀ era : ℤ, (year + era * 400) / 400 = era := by omega
  rw [fours, centuries, eras]
  omega

/-! ## The arithmetic of the language -/

variable {a b : Int64} {x y : ℤ}

theorem plus_is (left : a.toInt = x) (right : b.toInt = y) (fits : Fits64 (x + y)) :
    ∃ sum, plus a b = some sum ∧ sum.toInt = x + y := by
  subst left right
  exact (Option.ne_none_iff_exists'.mp (mt checked_eq_none.mp (not_not.mpr fits))).imp
    fun _ ran => ⟨ran, checked_eq_some.mp ran⟩

theorem minus_is (left : a.toInt = x) (right : b.toInt = y) (fits : Fits64 (x - y)) :
    ∃ rest, minus a b = some rest ∧ rest.toInt = x - y := by
  subst left right
  exact (Option.ne_none_iff_exists'.mp (mt checked_eq_none.mp (not_not.mpr fits))).imp
    fun _ ran => ⟨ran, checked_eq_some.mp ran⟩

theorem times_is (left : a.toInt = x) (right : b.toInt = y) (fits : Fits64 (x * y)) :
    ∃ product, times a b = some product ∧ product.toInt = x * y := by
  subst left right
  exact (Option.ne_none_iff_exists'.mp (mt checked_eq_none.mp (not_not.mpr fits))).imp
    fun _ ran => ⟨ran, checked_eq_some.mp ran⟩

theorem quotient_is (left : a.toInt = x) (right : b.toInt = y) (large : 0 < y)
    (fits : Fits64 (x.tdiv y)) : ∃ share, quotient a b = some share ∧ share.toInt = x.tdiv y := by
  subst left right
  have some_ : b ≠ 0 := by
    rintro rfl
    exact absurd large (by decide)
  rw [quotient, if_neg some_]
  exact (Option.ne_none_iff_exists'.mp (mt checked_eq_none.mp (not_not.mpr fits))).imp
    fun _ ran => ⟨ran, checked_eq_some.mp ran⟩

/-- What is not below zero is divided as it is divided with a floor. -/
theorem share_is (left : a.toInt = x) (right : b.toInt = y) (large : 0 < y) (positive : 0 ≤ x) :
    ∃ share, quotient a b = some share ∧ share.toInt = x / y := by
  have floor := Int.tdiv_eq_ediv_of_nonneg (b := y) positive
  have least := Int.ediv_nonneg positive large.le
  have most := Int.ediv_le_self y positive
  have fits := left ▸ fits_toInt a
  rw [← floor]
  apply quotient_is left right large
  rw [floor]
  unfold Fits64 at fits ⊢
  omega

/-- A count of milliseconds is in the day that its floor says. -/
theorem daysSinceEpoch_eq (milliseconds : Int64) :
    ∃ days, daysSinceEpoch milliseconds = some days ∧
      days.toInt = milliseconds.toInt / 86400000 := by
  have fits := fits_toInt milliseconds
  unfold Fits64 at fits
  have truncated : milliseconds.toInt.tdiv 86400000 = milliseconds.toInt / 86400000 +
      if 0 ≤ milliseconds.toInt ∨ 86400000 ∣ milliseconds.toInt then 0 else 1 :=
    Int.tdiv_eq_ediv
  obtain ⟨whole, whole_ran, whole_eq⟩ := quotient_is (a := milliseconds) rfl
    (show (86400000 : Int64).toInt = 86400000 from rfl) (by decide) (by
      rw [truncated]
      unfold Fits64
      split
      · omega
      · omega)
  rw [truncated] at whole_eq
  rw [daysSinceEpoch]
  simp only [whole_ran, Option.bind_eq_bind, Option.bind_some]
  have sign : milliseconds < 0 ↔ milliseconds.toInt < 0 := Int64.lt_iff_toInt_lt
  by_cases negative : milliseconds < 0
  · obtain ⟨covered, covered_ran, covered_eq⟩ := times_is whole_eq
      (show (86400000 : Int64).toInt = 86400000 from rfl) (by
        unfold Fits64
        split
        · omega
        · omega)
    have same : covered = milliseconds ↔ covered.toInt = milliseconds.toInt := Int64.toInt_inj.symm
    rw [if_pos negative, covered_ran]
    simp only [Option.bind_some]
    by_cases exact_ : 86400000 ∣ milliseconds.toInt
    · rw [if_pos (Or.inr exact_)] at whole_eq covered_eq
      rw [if_neg (not_not.mpr (same.mpr (by omega)))]
      exact ⟨whole, rfl, by omega⟩
    · rw [if_neg (by have := sign.mp negative; omega)] at whole_eq covered_eq
      rw [if_pos (fun equal => exact_ (by have := same.mp equal; omega))]
      obtain ⟨days, ran, days_eq⟩ := minus_is whole_eq (show (1 : Int64).toInt = 1 from rfl) (by
        unfold Fits64
        omega)
      exact ⟨days, ran, by omega⟩
  · rw [if_neg negative]
    rw [if_pos (Or.inl (by have := mt sign.mpr negative; omega))] at whole_eq
    exact ⟨whole, rfl, by omega⟩

/-- The part of `civil_of` that finds the year of an era. -/
def yearOfEra (dayOfEra : Int64) : Option Int64 := do
  quotient
    (← minus (← plus (← minus dayOfEra (← quotient dayOfEra 1460)) (← quotient dayOfEra 36524))
      (← quotient dayOfEra 146096)) 365

/-- The part of `civil_of` that finds the day of a year. -/
def dayOfYear (dayOfEra year : Int64) : Option Int64 := do
  minus dayOfEra (← minus (← plus (← times 365 year) (← quotient year 4)) (← quotient year 100))

/-- The part of `civil_of` that finds the date of a day of a year. -/
def dateOfDay (year day : Int64) : Option Date := do
  let mp ← quotient (← plus (← times 5 day) 2) 153
  let day ← plus (← minus day (← quotient (← plus (← times 153 mp) 2) 5)) 1
  let month ← (if mp < 10 then plus mp 3 else minus mp 9)
  let civil ← (if month ≤ 2 then plus year 1 else some year)
  return { year := civil, month, day }

theorem yearOfEra_bind {β : Type} (dayOfEra : Int64) (rest : Int64 → Option β) :
    (yearOfEra dayOfEra).bind rest =
      (quotient dayOfEra 1460).bind fun leaps => (minus dayOfEra leaps).bind fun short =>
        (quotient dayOfEra 36524).bind fun centuries => (plus short centuries).bind fun longer =>
          (quotient dayOfEra 146096).bind fun final => (minus longer final).bind fun even =>
            (quotient even 365).bind rest := by
  simp only [yearOfEra, Option.bind_eq_bind, Option.bind_assoc]

theorem dayOfYear_bind {β : Type} (dayOfEra year : Int64) (rest : Int64 → Option β) :
    (dayOfYear dayOfEra year).bind rest =
      (times 365 year).bind fun common => (quotient year 4).bind fun fourths =>
        (plus common fourths).bind fun julian => (quotient year 100).bind fun hundredths =>
          (minus julian hundredths).bind fun before => (minus dayOfEra before).bind rest := by
  simp only [dayOfYear, Option.bind_eq_bind, Option.bind_assoc]

theorem civilOf_parts (days : Int64) : civilOf days =
    (plus days 719468).bind fun z => (quotient z 146097).bind fun era =>
      (times era 146097).bind fun covered => (minus z covered).bind fun dayOfEra =>
        (yearOfEra dayOfEra).bind fun year => (times era 400).bind fun eras =>
          (plus year eras).bind fun whole => (dayOfYear dayOfEra year).bind (dateOfDay whole) := by
  refine Option.bind_congr fun z _ => Option.bind_congr fun era _ => ?_
  refine Option.bind_congr fun covered _ => Option.bind_congr fun dayOfEra _ => ?_
  rw [yearOfEra_bind]
  refine Option.bind_congr fun leaps _ => Option.bind_congr fun short _ => ?_
  refine Option.bind_congr fun centuries _ => Option.bind_congr fun longer _ => ?_
  refine Option.bind_congr fun final _ => Option.bind_congr fun even _ => ?_
  refine Option.bind_congr fun year _ => Option.bind_congr fun eras _ => ?_
  refine Option.bind_congr fun whole _ => ?_
  rw [dayOfYear_bind]
  rfl

theorem yearOfEra_is (doe : a.toInt = x) (low : 0 ≤ x) (high : x < 146097) :
    ∃ year, yearOfEra a = some year ∧
      year.toInt = (x - x / 1460 + x / 36524 - x / 146096) / 365 := by
  obtain ⟨leaps, leaps_ran, leaps_eq⟩ := share_is doe
    (show (1460 : Int64).toInt = 1460 from rfl) (by decide) low
  obtain ⟨short, short_ran, short_eq⟩ := minus_is doe leaps_eq (by unfold Fits64; omega)
  obtain ⟨centuries, centuries_ran, centuries_eq⟩ := share_is doe
    (show (36524 : Int64).toInt = 36524 from rfl) (by decide) low
  obtain ⟨longer, longer_ran, longer_eq⟩ := plus_is short_eq centuries_eq (by unfold Fits64; omega)
  obtain ⟨final, final_ran, final_eq⟩ := share_is doe
    (show (146096 : Int64).toInt = 146096 from rfl) (by decide) low
  obtain ⟨even, even_ran, even_eq⟩ := minus_is longer_eq final_eq (by unfold Fits64; omega)
  obtain ⟨year, year_ran, year_eq⟩ := share_is even_eq
    (show (365 : Int64).toInt = 365 from rfl) (by decide) (by omega)
  refine ⟨year, ?_, year_eq⟩
  simp only [yearOfEra, Option.bind_eq_bind, Option.bind_some, leaps_ran, short_ran, centuries_ran,
    longer_ran, final_ran, even_ran, year_ran]

theorem dayOfYear_is (doe : a.toInt = x) (year : b.toInt = y) (low : 0 ≤ x) (high : x < 146097)
    (first : 0 ≤ y) (last : y < 400) :
    ∃ day, dayOfYear a b = some day ∧ day.toInt = x - (365 * y + y / 4 - y / 100) := by
  obtain ⟨common, common_ran, common_eq⟩ := times_is
    (show (365 : Int64).toInt = 365 from rfl) year (by unfold Fits64; omega)
  obtain ⟨fourths, fourths_ran, fourths_eq⟩ := share_is year
    (show (4 : Int64).toInt = 4 from rfl) (by decide) first
  obtain ⟨julian, julian_ran, julian_eq⟩ := plus_is common_eq fourths_eq (by unfold Fits64; omega)
  obtain ⟨hundredths, hundredths_ran, hundredths_eq⟩ := share_is year
    (show (100 : Int64).toInt = 100 from rfl) (by decide) first
  obtain ⟨before, before_ran, before_eq⟩ := minus_is julian_eq hundredths_eq (by
    unfold Fits64; omega)
  obtain ⟨day, day_ran, day_eq⟩ := minus_is doe before_eq (by unfold Fits64; omega)
  refine ⟨day, ?_, day_eq⟩
  simp only [dayOfYear, Option.bind_eq_bind, Option.bind_some, common_ran, fourths_ran, julian_ran,
    hundredths_ran, before_ran, day_ran]

theorem dateOfDay_is (year : a.toInt = x) (day : b.toInt = y) (early : 0 ≤ x) (late : x < 2 ^ 60)
    (first : 0 ≤ y) (last : y ≤ 365) :
    ∃ date, dateOfDay a b = some date ∧
      springDate x y = ⟨date.year.toInt, date.month.toInt, date.day.toInt⟩ := by
  obtain ⟨fives, fives_ran, fives_eq⟩ := times_is
    (show (5 : Int64).toInt = 5 from rfl) day (by unfold Fits64; omega)
  obtain ⟨shifted, shifted_ran, shifted_eq⟩ := plus_is fives_eq
    (show (2 : Int64).toInt = 2 from rfl) (by unfold Fits64; omega)
  obtain ⟨mp, mp_ran, mp_eq⟩ := share_is shifted_eq
    (show (153 : Int64).toInt = 153 from rfl) (by decide) (by omega)
  obtain ⟨months, months_ran, months_eq⟩ := times_is
    (show (153 : Int64).toInt = 153 from rfl) mp_eq (by unfold Fits64; omega)
  obtain ⟨rounded, rounded_ran, rounded_eq⟩ := plus_is months_eq
    (show (2 : Int64).toInt = 2 from rfl) (by unfold Fits64; omega)
  obtain ⟨gone, gone_ran, gone_eq⟩ := share_is rounded_eq
    (show (5 : Int64).toInt = 5 from rfl) (by decide) (by omega)
  obtain ⟨left, left_ran, left_eq⟩ := minus_is day gone_eq (by unfold Fits64; omega)
  obtain ⟨date, date_ran, date_eq⟩ := plus_is left_eq
    (show (1 : Int64).toInt = 1 from rfl) (by unfold Fits64; omega)
  have spring : mp < 10 ↔ (5 * y + 2) / 153 < 10 := by
    rw [← mp_eq]
    exact Int64.lt_iff_toInt_lt
  obtain ⟨month, month_ran, month_eq⟩ : ∃ month, (if mp < 10 then plus mp 3 else minus mp 9) =
      some month ∧ month.toInt =
        if (5 * y + 2) / 153 < 10 then (5 * y + 2) / 153 + 3 else (5 * y + 2) / 153 - 9 := by
    by_cases early : mp < 10
    · rw [if_pos early, if_pos (spring.mp early)]
      exact plus_is mp_eq (show (3 : Int64).toInt = 3 from rfl) (by unfold Fits64; omega)
    · rw [if_neg early, if_neg (mt spring.mpr early)]
      exact minus_is mp_eq (show (9 : Int64).toInt = 9 from rfl) (by unfold Fits64; omega)
  have winter : month ≤ 2 ↔ month.toInt ≤ 2 := Int64.le_iff_toInt_le
  obtain ⟨civil, civil_ran, civil_eq⟩ : ∃ civil,
      (if month ≤ 2 then plus a 1 else some a) = some civil ∧
        civil.toInt = if month.toInt ≤ 2 then x + 1 else x := by
    by_cases late : month ≤ 2
    · rw [if_pos late, if_pos (winter.mp late)]
      exact plus_is year (show (1 : Int64).toInt = 1 from rfl) (by unfold Fits64; omega)
    · rw [if_neg late, if_neg (mt winter.mpr late)]
      exact ⟨a, rfl, year⟩
  refine ⟨⟨civil, month, date⟩, ?_, ?_⟩
  · simp only [dateOfDay, Option.bind_eq_bind, Option.bind_some, fives_ran, shifted_ran, mp_ran,
      months_ran, rounded_ran, gone_ran, left_ran, date_ran, month_ran, civil_ran]
    rfl
  · rw [springDate]
    simp only [civil_eq, month_eq, date_eq]

/-- The conversion never leaves the numbers that an `Int` holds. -/
theorem civilOf_is {days : Int64} (day : days.toInt = x) (first : 0 ≤ x + 719468)
    (last : x < 2 ^ 40) :
    ∃ date, civilOf days = some date ∧
      civil x = ⟨date.year.toInt, date.month.toInt, date.day.toInt⟩ := by
  obtain ⟨z, z_ran, z_eq⟩ := plus_is day
    (show (719468 : Int64).toInt = 719468 from rfl) (by unfold Fits64; omega)
  obtain ⟨era, era_ran, era_eq⟩ := share_is z_eq
    (show (146097 : Int64).toInt = 146097 from rfl) (by decide) first
  obtain ⟨covered, covered_ran, covered_eq⟩ := times_is era_eq
    (show (146097 : Int64).toInt = 146097 from rfl) (by unfold Fits64; omega)
  obtain ⟨dayOfEra, doe_ran, doe_eq⟩ := minus_is z_eq covered_eq (by unfold Fits64; omega)
  replace doe_eq : dayOfEra.toInt = (x + 719468) % 146097 := by omega
  have low : 0 ≤ (x + 719468) % 146097 := Int.emod_nonneg _ (by decide)
  have high : (x + 719468) % 146097 < 146097 := Int.emod_lt_of_pos _ (by decide)
  have spec := yearOfEra_spec low high rfl
  obtain ⟨yoe, yoe_ran, yoe_eq⟩ := yearOfEra_is doe_eq low high
  have formula : civil x = springDate (yoe.toInt + (x + 719468) / 146097 * 400)
      ((x + 719468) % 146097 - (365 * yoe.toInt + yoe.toInt / 4 - yoe.toInt / 100)) := by
    rw [yoe_eq]
    rfl
  rw [← yoe_eq] at spec
  clear yoe_eq
  obtain ⟨eras, eras_ran, eras_eq⟩ := times_is era_eq
    (show (400 : Int64).toInt = 400 from rfl) (by unfold Fits64; omega)
  obtain ⟨year, year_ran, year_eq⟩ := plus_is (a := yoe) rfl eras_eq (by unfold Fits64; omega)
  obtain ⟨doy, doy_ran, doy_eq⟩ := dayOfYear_is doe_eq (b := yoe) rfl low high spec.1 spec.2.1
  obtain ⟨date, date_ran, date_eq⟩ := dateOfDay_is year_eq doy_eq (by omega) (by omega) (by omega)
    (by omega)
  refine ⟨date, ?_, formula.trans date_eq⟩
  rw [civilOf_parts, z_ran, Option.bind_some, era_ran, Option.bind_some, covered_ran,
    Option.bind_some, doe_ran, Option.bind_some, yoe_ran, Option.bind_some, eras_ran,
    Option.bind_some, year_ran, Option.bind_some, doy_ran]
  exact date_ran

/-! ## Dates -/

/-- A date in exact numbers. -/
def Date.exactly (date : Date) : Library.Calendar.Date :=
  ⟨date.year.toInt, date.month.toInt, date.day.toInt⟩

/-- What `date_of` answers for an instant, by the number of its day. -/
theorem dateOf_cases (milliseconds : Int64) :
    (milliseconds.toInt / 86400000 + 719468 < 0 ∧
        dateOf milliseconds = some (.error "this calendar starts at year zero")) ∨
      (0 ≤ milliseconds.toInt / 86400000 + 719468 ∧
        ∃ date, dateOf milliseconds = some (.ok date) ∧
          date.exactly = civil (milliseconds.toInt / 86400000)) := by
  have fits := fits_toInt milliseconds
  obtain ⟨days, days_ran, days_eq⟩ := daysSinceEpoch_eq milliseconds
  obtain ⟨z, z_ran, z_eq⟩ := plus_is days_eq (show (719468 : Int64).toInt = 719468 from rfl) (by
    unfold Fits64 at fits ⊢
    omega)
  have sign : z < 0 ↔ milliseconds.toInt / 86400000 + 719468 < 0 := by
    rw [← z_eq]
    exact Int64.lt_iff_toInt_lt
  by_cases early : z < 0
  · left
    refine ⟨sign.mp early, ?_⟩
    simp only [dateOf, Option.bind_eq_bind, Option.bind_some, days_ran, z_ran, if_pos early]
    rfl
  · right
    have late := mt sign.mpr early
    obtain ⟨date, date_ran, date_eq⟩ := civilOf_is days_eq (by omega) (by
      unfold Fits64 at fits
      omega)
    refine ⟨by omega, date, ?_, date_eq.symm⟩
    simp only [dateOf, Option.bind_eq_bind, Option.bind_some, days_ran, z_ran, if_neg early,
      date_ran]
    rfl

theorem remainder_zero (left : a.toInt = x) (right : b.toInt = y) (large : 1 < y) :
    ∃ rest, remainder a b = some rest ∧ (rest = 0 ↔ y ∣ x) := by
  subst left right
  have some_ : ¬(b = 0 ∨ (a = Int64.minValue ∧ b = -1)) := by
    rintro (rfl | ⟨-, rfl⟩)
    · exact absurd large (by decide)
    · exact absurd large (by decide)
  have upper := b.toInt_lt
  have most := Int.tmod_lt_of_pos a.toInt (show 0 < b.toInt by omega)
  have least := Int.lt_tmod_of_pos a.toInt (show 0 < b.toInt by omega)
  have fits : Fits64 (a.toInt.tmod b.toInt) := by
    unfold Fits64
    omega
  obtain ⟨rest, ran⟩ := Option.ne_none_iff_exists'.mp (mt checked_eq_none.mp (not_not.mpr fits))
  refine ⟨rest, ?_, ?_⟩
  · rw [remainder, if_neg some_, ran]
  · rw [← Int64.toInt_inj, checked_eq_some.mp ran]
    exact (Int.dvd_iff_tmod_eq_zero).symm

theorem isLeapYear_eq (year : Int64) : isLeapYear year = some (decide (Leap year.toInt)) := by
  obtain ⟨era, era_ran, era_zero⟩ := remainder_zero (a := year) rfl
    (show (400 : Int64).toInt = 400 from rfl) (by decide)
  obtain ⟨century, century_ran, century_zero⟩ := remainder_zero (a := year) rfl
    (show (100 : Int64).toInt = 100 from rfl) (by decide)
  obtain ⟨fourth, fourth_ran, fourth_zero⟩ := remainder_zero (a := year) rfl
    (show (4 : Int64).toInt = 4 from rfl) (by decide)
  have rule : Leap year.toInt ↔ era = 0 ∨ (¬century = 0 ∧ fourth = 0) := by
    rw [era_zero, century_zero, fourth_zero]
    unfold Leap
    omega
  simp only [isLeapYear, Option.bind_eq_bind, Option.bind_some, era_ran, century_ran, fourth_ran]
  by_cases first : era = 0
  · rw [if_pos first, decide_eq_true (rule.mpr (Or.inl first))]
    rfl
  · by_cases second : century = 0
    · have common : ¬Leap year.toInt := fun leap => by
        rcases rule.mp leap with yes | yes
        · exact first yes
        · exact yes.1 second
      rw [if_neg first, if_pos second, decide_eq_false common]
      rfl
    · have last : Leap year.toInt ↔ fourth = 0 := by
        rw [rule]
        exact ⟨fun either => (either.resolve_left first).2, fun yes => Or.inr ⟨second, yes⟩⟩
      rw [if_neg first, if_neg second]
      show some (decide (fourth = 0)) = _
      rw [decide_eq_decide.mpr last]

/-- The length of a month is the calendar's. -/
theorem daysInMonth_is (year : Int64) {month : Int64} (first : 1 ≤ month.toInt) (last : month.toInt ≤ 12) :
    ∃ length, daysInMonth year month = some length ∧
      length.toInt = monthLength year.toInt month.toInt := by
  have is : ∀ number : Int64, month = number ↔ month.toInt = number.toInt :=
    fun number => Int64.toInt_inj.symm
  have two : (2 : Int64).toInt = 2 := rfl
  have four : (4 : Int64).toInt = 4 := rfl
  have six : (6 : Int64).toInt = 6 := rfl
  have nine : (9 : Int64).toInt = 9 := rfl
  have eleven : (11 : Int64).toInt = 11 := rfl
  have short : (month = 4 ∨ month = 6 ∨ month = 9 ∨ month = 11) ↔
      (month.toInt = 4 ∨ month.toInt = 6 ∨ month.toInt = 9 ∨ month.toInt = 11) := by
    rw [is, is, is, is, four, six, nine, eleven]
  have inside : 1 ≤ month ∧ month ≤ 12 :=
    ⟨Int64.le_iff_toInt_le.mpr first, Int64.le_iff_toInt_le.mpr last⟩
  rw [monthLength_eq, daysInMonth]
  have second : month = 2 ↔ month.toInt = 2 := two ▸ is 2
  by_cases february : month = 2
  · rw [if_pos february, if_pos (second.mp february), isLeapYear_eq]
    by_cases leap : Leap year.toInt
    · rw [decide_eq_true leap, if_pos leap]
      exact ⟨29, rfl, rfl⟩
    · rw [decide_eq_false leap, if_neg leap]
      exact ⟨28, rfl, rfl⟩
  · rw [if_neg february, if_neg (mt second.mpr february)]
    by_cases thirty : month = 4 ∨ month = 6 ∨ month = 9 ∨ month = 11
    · rw [if_pos thirty, if_pos (short.mp thirty)]
      exact ⟨30, rfl, rfl⟩
    · rw [if_neg thirty, if_neg (mt short.mpr thirty), if_pos inside]
      exact ⟨31, rfl, rfl⟩

/-- What is answered for a day is the date of that day. -/
theorem dateOf_day {milliseconds : Int64} {date : Date}
    (ran : dateOf milliseconds = some (.ok date)) :
    date.exactly = civil (milliseconds.toInt / 86400000) := by
  rcases dateOf_cases milliseconds with ⟨-, refused⟩ | ⟨-, other, answered, same⟩
  · rw [refused] at ran
    cases ran
  · rw [answered] at ran
    cases ran
    exact same

theorem dateOf_same {milliseconds later : Int64}
    (same : later.toInt / 86400000 = milliseconds.toInt / 86400000) {date : Date}
    (ran : dateOf milliseconds = some (.ok date)) : dateOf later = some (.ok date) := by
  have day := dateOf_day ran
  rcases dateOf_cases later with ⟨early, -⟩ | ⟨-, other, answered, day'⟩
  · rcases dateOf_cases milliseconds with ⟨-, refused⟩ | ⟨late, -⟩
    · rw [refused] at ran
      cases ran
    · omega
  · have equal : other.exactly = date.exactly := by rw [day', day, same]
    unfold Date.exactly at equal
    rw [Library.Calendar.Date.ext_iff] at equal
    rw [answered]
    have whole : other = date := by
      cases other
      cases date
      simp only [Int64.toInt_inj] at equal
      simp only [Date.mk.injEq]
      exact equal
    rw [whole]

/-- The days before the first of March of the year zero are refused, every other day is answered
with its date, all instants of a day alike, and the day after with the date after. -/
theorem dateOf_right (milliseconds : Int64) :
    (dateOf milliseconds = some (.error "this calendar starts at year zero") ↔
        milliseconds.toInt / 86400000 < Library.Calendar.Date.number ⟨0, 3, 1⟩) ∧
      (Library.Calendar.Date.number ⟨0, 3, 1⟩ ≤ milliseconds.toInt / 86400000 →
        ∃ date length, dateOf milliseconds = some (.ok date) ∧
          date.exactly.number = milliseconds.toInt / 86400000 ∧
          daysInMonth date.year date.month = some length ∧
          1 ≤ date.month ∧ date.month ≤ 12 ∧ 1 ≤ date.day ∧ date.day ≤ length ∧
          ∀ later : Int64,
            (later.toInt / 86400000 = milliseconds.toInt / 86400000 →
              dateOf later = some (.ok date)) ∧
            (later.toInt / 86400000 = milliseconds.toInt / 86400000 + 1 →
              ∃ next, dateOf later = some (.ok next) ∧ next.exactly = date.exactly.next)) := by
  have march : Library.Calendar.Date.number ⟨0, 3, 1⟩ = -719468 := by decide
  rw [march]
  rcases dateOf_cases milliseconds with ⟨early, refused⟩ | ⟨late, date, answered, exactly_⟩
  · exact ⟨iff_of_true refused (by omega), fun late => absurd late (by omega)⟩
  · have day := civil_right (milliseconds.toInt / 86400000)
    rw [← exactly_] at day
    obtain ⟨length, length_ran, length_eq⟩ := daysInMonth_is date.year day.1.month_pos
      day.1.month_le
    refine ⟨iff_of_false ?_ (by omega), fun _ => ⟨date, length, answered, day.2, length_ran,
      Int64.le_iff_toInt_le.mpr day.1.month_pos, Int64.le_iff_toInt_le.mpr day.1.month_le,
      Int64.le_iff_toInt_le.mpr day.1.day_pos, ?_, fun later => ⟨?_, ?_⟩⟩⟩
    · rw [answered]
      intro refused
      cases refused
    · rw [Int64.le_iff_toInt_le, length_eq]
      exact day.1.day_le
    · intro same
      exact dateOf_same same answered
    · intro after
      rcases dateOf_cases later with ⟨early, -⟩ | ⟨-, next, answered', exactly'⟩
      · omega
      · have day' := civil_right (later.toInt / 86400000)
        rw [← exactly'] at day'
        refine ⟨next, answered', ?_⟩
        apply Library.Calendar.Date.number_inj day'.1 day.1.next
        rw [Library.Calendar.Date.number_next day.1, day.2, day'.2, after]

end Deed.Stdlib
