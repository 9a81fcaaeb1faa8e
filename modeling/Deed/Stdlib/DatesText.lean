import Deed.Library.Numerals
import Deed.Stdlib.DatesSound
import Deed.Stdlib.RatioText

/-!
# Text in the order of dates

A date is written with its year first, then the month and the day with two digits each, so that
texts with years of one width are in the order of their dates.  Years are not padded: of years
of two widths, the texts go by the digits that both have.
-/

namespace Deed.Stdlib

open Deed.Library (width append_lt_append_iff toDigits_lt_iff toDigits_inj toDigits_split
  digitChar_lt_iff)

/-! ## What is written -/

/-- Two digits of a number. -/
def twoDigits (number : ℕ) : List Char :=
  [Nat.digitChar (number / 10), Nat.digitChar (number % 10)]

theorem toList_number {a : Int64} {number : ℕ} (same : a.toInt = number) :
    (toString a.toInt).toList = Nat.toDigits 10 number := by
  rw [same]
  exact Nat.toList_repr

theorem toList_padded {a : Int64} {number : ℕ} (same : a.toInt = number) (small : number < 100) :
    (padded a).toList = twoDigits number := by
  have less : a < 10 ↔ number < 10 := by
    rw [Int64.lt_iff_toInt_lt, same]
    show (number : ℤ) < 10 ↔ _
    omega
  rw [padded, twoDigits]
  by_cases single : number < 10
  · rw [if_pos (less.mpr single), Ratio.toList_joined, List.map_cons, List.map_singleton,
      toList_number same, Nat.toDigits_of_lt_base single, Nat.div_eq_of_lt single,
      Nat.mod_eq_of_lt single]
    rfl
  · rw [if_neg (mt less.mp single), toList_number same,
      Nat.toDigits_of_base_le (by decide) (not_lt.mp single),
      Nat.toDigits_of_lt_base (by omega)]
    rfl

theorem toList_text {date : Date} {year month day : ℕ} (years : date.year.toInt = year)
    (months : date.month.toInt = month) (days : date.day.toInt = day) (small : month < 100)
    (small' : day < 100) : date.text.toList =
      Nat.toDigits 10 year ++ '-' :: (twoDigits month ++ '-' :: twoDigits day) := by
  rw [Date.text, Ratio.toList_joined, List.map_cons, List.map_cons, List.map_cons, List.map_cons,
    List.map_singleton, toList_number years, toList_padded months small, toList_padded days small']
  rfl

/-! ## The order of what is written -/

theorem digitChar_inj : ∀ first < 10, ∀ second < 10,
    Nat.digitChar first = Nat.digitChar second → first = second := by
  decide

theorem twoDigits_lt_iff {first second : ℕ} (small : first < 100) (small' : second < 100) :
    twoDigits first < twoDigits second ↔ first < second := by
  have equal : Nat.digitChar (first / 10) = Nat.digitChar (second / 10) ↔
      first / 10 = second / 10 :=
    ⟨digitChar_inj _ (by omega) _ (by omega), congrArg _⟩
  rw [twoDigits, twoDigits, List.cons_lt_cons_iff, List.cons_lt_cons_iff, equal,
    digitChar_lt_iff _ (by omega) _ (by omega), digitChar_lt_iff _ (by omega) _ (by omega)]
  simp only [List.not_lt_nil, and_false, or_false]
  omega

/-- Years of one width decide before what is after them. -/
theorem years_lt_iff {year other : ℕ} (same : width year = width other) (rest rest' : List Char) :
    Nat.toDigits 10 year ++ '-' :: rest < Nat.toDigits 10 other ++ '-' :: rest' ↔
      year < other ∨ year = other ∧ rest < rest' := by
  rw [append_lt_append_iff same, toDigits_lt_iff same, List.cons_lt_cons_iff]
  have equal : Nat.toDigits 10 year = Nat.toDigits 10 other ↔ year = other :=
    ⟨toDigits_inj, congrArg _⟩
  rw [equal]
  simp

/-- A year with more digits is compared by as many of them as the other has. -/
theorem years_lt_iff_le {year other : ℕ} (less : width year < width other)
    (rest rest' : List Char) :
    (Nat.toDigits 10 year ++ '-' :: rest < Nat.toDigits 10 other ++ '-' :: rest' ↔
        year ≤ other / 10 ^ (width other - width year)) ∧
      (Nat.toDigits 10 other ++ '-' :: rest' < Nat.toDigits 10 year ++ '-' :: rest ↔
        other / 10 ^ (width other - width year) < year) := by
  have mark : ∀ value < 10, '-' < Nat.digitChar value ∧ ¬Nat.digitChar value < '-' ∧
      Nat.digitChar value ≠ '-' := by decide
  have some_ := Library.width_pos year
  rcases toDigits_split other (show width other - width year < width other by omega) with
    ⟨digits, split, count, each⟩
  have fronts : width year = width (other / 10 ^ (width other - width year)) := by
    have lengths := congrArg List.length split
    rw [List.length_append, count] at lengths
    change width other = width _ + _ at lengths
    omega
  have equal : Nat.toDigits 10 year =
      Nat.toDigits 10 (other / 10 ^ (width other - width year)) ↔
        year = other / 10 ^ (width other - width year) := ⟨toDigits_inj, congrArg _⟩
  cases digits with
  | nil =>
      rw [List.length_nil] at count
      omega
  | cons digit digits =>
      rcases each digit List.mem_cons_self with ⟨value, small, rfl⟩
      rcases mark value small with ⟨below, not_above, other_⟩
      rw [split, List.append_assoc, List.cons_append]
      constructor
      · rw [append_lt_append_iff fronts, toDigits_lt_iff fronts, equal, List.cons_lt_cons_iff,
          le_iff_lt_or_eq]
        simp [below]
      · rw [append_lt_append_iff fronts.symm, toDigits_lt_iff fronts.symm, List.cons_lt_cons_iff]
        simp [not_above, other_]

/-! ## Dates -/

/-- Whether two years are in the order of their texts: of two widths, the year with fewer digits
is at most what as many digits of the other spell. -/
def Aligned (year other : ℕ) : Prop :=
  (width year < width other → year ≤ other / 10 ^ (width other - width year)) ∧
    (width other < width year → other ≤ year / 10 ^ (width year - width other))

instance (year other : ℕ) : Decidable (Aligned year other) :=
  inferInstanceAs (Decidable (_ ∧ _))

/-- The texts of two instants are in the order of their dates. -/
def TextSorts (first second : Int64) : Prop :=
  ∃ date other shown shown', dateOf first = some (.ok date) ∧ dateOf second = some (.ok other) ∧
    Date.textOf first = some shown ∧ Date.textOf second = some shown' ∧
      (shown < shown' ↔ date.exactly.Before other.exactly)

theorem rest_lt_iff {month month' day day' : ℕ} (months : month < 100) (months' : month' < 100)
    (days : day < 100) (days' : day' < 100) :
    twoDigits month ++ '-' :: twoDigits day < twoDigits month' ++ '-' :: twoDigits day' ↔
      month < month' ∨ month = month' ∧ day < day' := by
  have equal : twoDigits month = twoDigits month' ↔ month = month' := by
    constructor
    · intro same
      have parts := List.cons.inj same
      have tens := digitChar_inj _ (by omega) _ (by omega) parts.1
      have ones := digitChar_inj _ (by omega) _ (by omega) (List.cons.inj parts.2).1
      omega
    · rintro rfl
      rfl
  have same : (twoDigits month).length = (twoDigits month').length := rfl
  rw [append_lt_append_iff same, twoDigits_lt_iff months months', List.cons_lt_cons_iff,
    twoDigits_lt_iff days days', equal]
  simp

/-- An instant that is answered has a date of a year that is not below zero. -/
theorem accepted_spec {milliseconds : Int64} {date : Date}
    (accepted : dateOf milliseconds = some (.ok date)) :
    date.exactly.Valid ∧ 0 ≤ date.exactly.year := by
  rcases dateOf_cases milliseconds with ⟨-, refused⟩ | ⟨late, other, answered, same⟩
  · rw [refused] at accepted
    cases accepted
  · rw [answered] at accepted
    cases accepted
    have right := civil_right (milliseconds.toInt / 86400000)
    rw [← same] at right
    refine ⟨right.1, ?_⟩
    by_contra early
    have most := (Library.Calendar.Date.number_bounds right.1).2
    have less := Library.Calendar.daysBefore_mono (show date.exactly.year + 1 ≤ 0 by omega)
    have zero : Library.Calendar.Date.daysBefore 0 = -366 := by decide
    rw [right.2] at most
    omega

/-- An accepted instant's date in natural numbers, and its text. -/
theorem written {milliseconds : Int64} {date : Date}
    (accepted : dateOf milliseconds = some (.ok date)) :
    ∃ year month day : ℕ, date.exactly = ⟨year, month, day⟩ ∧ month < 100 ∧ day < 100 ∧
      Date.textOf milliseconds = some date.text ∧
      date.text.toList =
        Nat.toDigits 10 year ++ '-' :: (twoDigits month ++ '-' :: twoDigits day) := by
  rcases accepted_spec accepted with ⟨valid, from_zero⟩
  obtain ⟨year, years⟩ := Int.eq_ofNat_of_zero_le from_zero
  obtain ⟨month, months⟩ := Int.eq_ofNat_of_zero_le (le_trans (by decide) valid.month_pos)
  obtain ⟨day, days⟩ := Int.eq_ofNat_of_zero_le (le_trans (by decide) valid.day_pos)
  have small : month < 100 := by
    have last := valid.month_le
    rw [months] at last
    omega
  have small' : day < 100 := by
    have last := valid.day_le
    have long : Library.Calendar.monthLength date.exactly.year date.exactly.month ≤ 31 := by
      rw [monthLength_eq]
      split_ifs
      all_goals decide
    rw [days] at last
    omega
  refine ⟨year, month, day, ?_, small, small', ?_, toList_text years months days small small'⟩
  · rw [Library.Calendar.Date.ext_iff]
    exact ⟨years, months, days⟩
  · rw [Date.textOf, accepted]
    rfl

/-- Texts are in the order of their dates exactly where the years are aligned. -/
theorem textSorts_iff {first second : Int64} {date other : Date}
    (accepted : dateOf first = some (.ok date)) (accepted' : dateOf second = some (.ok other)) :
    TextSorts first second ↔ Aligned date.year.toInt.toNat other.year.toInt.toNat := by
  rcases written accepted with ⟨year, month, day, numbers, small, small', shown, text⟩
  rcases written accepted' with ⟨year', month', day', numbers', small_, small_', shown', text'⟩
  have sorts : TextSorts first second ↔
      (date.text < other.text ↔ date.exactly.Before other.exactly) := by
    constructor
    · rintro ⟨_, _, _, _, ran, ran', ran_text, ran_text', order⟩
      rw [accepted] at ran
      rw [accepted'] at ran'
      rw [shown] at ran_text
      rw [shown'] at ran_text'
      cases ran
      cases ran'
      cases ran_text
      cases ran_text'
      exact order
    · intro order
      exact ⟨date, other, _, _, accepted, accepted', shown, shown', order⟩
  have lists : date.text < other.text ↔ date.text.toList < other.text.toList := Iff.rfl
  have before : date.exactly.Before other.exactly ↔
      year < year' ∨ year = year' ∧ (month < month' ∨ month = month' ∧ day < day') := by
    rw [numbers, numbers']
    show (year : ℤ) < year' ∨ (year : ℤ) = year' ∧ ((month : ℤ) < month' ∨
      (month : ℤ) = month' ∧ (day : ℤ) < day') ↔ _
    omega
  have years : date.year.toInt.toNat = year := by
    have same : date.exactly.year = (year : ℤ) := by rw [numbers]
    change date.year.toInt = _ at same
    omega
  have years' : other.year.toInt.toNat = year' := by
    have same : other.exactly.year = (year' : ℤ) := by rw [numbers']
    change other.year.toInt = _ at same
    omega
  rw [sorts, lists, text, text', before, years, years']
  rcases lt_trichotomy (width year) (width year') with less | same | more
  · have order := (years_lt_iff_le less (twoDigits month ++ '-' :: twoDigits day)
      (twoDigits month' ++ '-' :: twoDigits day')).1
    have earlier := Library.lt_of_width_lt less
    rw [order]
    exact ⟨fun both => ⟨fun _ => both.mpr (Or.inl earlier), fun more => absurd more less.asymm⟩,
      fun aligned => iff_of_true (aligned.1 less) (Or.inl earlier)⟩
  · rw [years_lt_iff same, rest_lt_iff small small_ small' small_']
    exact iff_of_true Iff.rfl ⟨fun less => absurd same less.ne, fun more => absurd same more.ne'⟩
  · have order := (years_lt_iff_le more (twoDigits month' ++ '-' :: twoDigits day')
      (twoDigits month ++ '-' :: twoDigits day)).2
    have later := Library.lt_of_width_lt more
    have not_before : ¬(year < year' ∨ year = year' ∧
        (month < month' ∨ month = month' ∧ day < day')) := by omega
    rw [order]
    exact ⟨fun both => ⟨fun less => absurd less more.asymm, fun _ =>
        not_lt.mp (mt both.mp not_before)⟩,
      fun aligned => iff_of_false (not_lt.mpr (aligned.2 more)) not_before⟩

theorem textSorts_epoch : TextSorts 0 951868800000 ↔ Aligned 1970 2000 := by
  have epoch : dateOf 0 = some (.ok ⟨1970, 1, 1⟩) := rfl
  have leap : dateOf 951868800000 = some (.ok ⟨2000, 3, 1⟩) := rfl
  exact textSorts_iff epoch leap

/-- The last day of the year 999 comes after the first of the year 1000 as text. -/
theorem text_of_thousand : ¬TextSorts (-30610310400000) (-30610224000000) := by
  rintro ⟨date, other, shown, shown', accepted, accepted', text, text', order⟩
  have last : dateOf (-30610310400000) = some (.ok ⟨999, 12, 31⟩) := rfl
  have first : dateOf (-30610224000000) = some (.ok ⟨1000, 1, 1⟩) := rfl
  rw [last] at accepted
  rw [first] at accepted'
  cases accepted
  cases accepted'
  have short : Date.textOf (-30610310400000) = some "999-12-31" := rfl
  have long : Date.textOf (-30610224000000) = some "1000-01-01" := rfl
  rw [short] at text
  rw [long] at text'
  cases text
  cases text'
  exact absurd (order.mpr (by decide)) (by decide)

end Deed.Stdlib
