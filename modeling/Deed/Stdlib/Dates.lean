import Deed.Stdlib.Lists

/-!
# Shipped dates

`std/date`: the calendar on top of a count of milliseconds, with the arithmetic of the
language, where an operator whose result no `Int` holds stops the run.
-/

namespace Deed.Stdlib

structure Date where
  year : Int64
  month : Int64
  day : Int64
deriving DecidableEq, Repr

/-- How many whole days a millisecond count covers. -/
def daysSinceEpoch (milliseconds : Int64) : Option Int64 := do
  let whole ← quotient milliseconds 86400000
  -- `&&` computes its right side only where its left side holds
  if milliseconds < 0 then
    if (← times whole 86400000) ≠ milliseconds then minus whole 1 else return whole
  else return whole

/-- The civil date a day count lands on, counting from 1970-01-01. -/
def civilOf (days : Int64) : Option Date := do
  let z ← plus days 719468
  let era ← quotient z 146097
  let dayOfEra ← minus z (← times era 146097)
  let yearOfEra ← quotient
    (← minus (← plus (← minus dayOfEra (← quotient dayOfEra 1460)) (← quotient dayOfEra 36524))
      (← quotient dayOfEra 146096)) 365
  let year ← plus yearOfEra (← times era 400)
  let dayOfYear ← minus dayOfEra
    (← minus (← plus (← times 365 yearOfEra) (← quotient yearOfEra 4)) (← quotient yearOfEra 100))
  let mp ← quotient (← plus (← times 5 dayOfYear) 2) 153
  let day ← plus (← minus dayOfYear (← quotient (← plus (← times 153 mp) 2) 5)) 1
  let month ← (if mp < 10 then plus mp 3 else minus mp 9)
  let civil ← (if month ≤ 2 then plus year 1 else some year)
  return { year := civil, month, day }

/-- The civil date a millisecond count lands on, or a refusal for a clock set before the
arithmetic holds. -/
def dateOf (milliseconds : Int64) : Option (Except String Date) := do
  if (← plus (← daysSinceEpoch milliseconds) 719468) < 0 then
    return .error "this calendar starts at year zero"
  else return .ok (← civilOf (← daysSinceEpoch milliseconds))

/-- Whether a year has a leap day. -/
def isLeapYear (year : Int64) : Option Bool := do
  if (← remainder year 400) = 0 then return true
  else if (← remainder year 100) = 0 then return false
  else return (← remainder year 4) = 0

/-- How many days a month has, in a given year. -/
def daysInMonth (year month : Int64) : Option Int64 := do
  if month = 2 then return if ← isLeapYear year then 29 else 28
  else if month = 4 ∨ month = 6 ∨ month = 9 ∨ month = 11 then return 30
  else if 1 ≤ month ∧ month ≤ 12 then return 31
  else return 0

/-! ## Text -/

/-- A two-digit rendering, for the parts of a date that have two digits. -/
def padded (value : Int64) : String :=
  if value < 10 then String.intercalate "" ["0", toString value.toInt] else toString value.toInt

namespace Date

/-- A date as `YYYY-MM-DD`. -/
def text (date : Date) : String :=
  String.intercalate ""
    [toString date.year.toInt, "-", padded date.month, "-", padded date.day]

/-- The date a millisecond count lands on, as text, or the reason it refused. -/
def textOf (milliseconds : Int64) : Option String :=
  (dateOf milliseconds).map fun answer =>
    match answer with
    | .ok date => date.text
    | .error why => why

end Date

end Deed.Stdlib
