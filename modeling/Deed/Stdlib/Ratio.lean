import Deed.Stdlib.Lists

/-!
# Shipped ratios

The module `std/ratio`: exact ratios of two `Int`s, kept in lowest terms.  A `where` or an
`ensures` is checked when the function runs, and stops the run where it does not hold.
-/

namespace Deed.Stdlib

/-- A function body with what its `where` requires and what its `ensures` promises. -/
def contract {α : Type} (required : Prop) [Decidable required] (ensured : α → Prop)
    [DecidablePred ensured] (body : Option α) : Option α :=
  if required then body.filter fun result => ensured result else none

/-- A ratio in lowest terms, with `bottom` above zero. -/
structure Ratio where
  top : Int64
  bottom : Int64
  deriving DecidableEq, Repr

namespace Ratio

/-- What the walk for a divisor carries. -/
structure Pair where
  left : Int64
  right : Int64

/-- Enough turns for any two `Int`s. -/
def euclidSteps : Int64 := 96

/-- The size of a number. -/
def absolute (n : Int64) : Option Int64 :=
  contract (Int64.minValue < n) (fun result => 0 ≤ result)
    (if n < 0 then minus 0 n else some n)

/-- The greatest common divisor of two numbers, whatever their signs. -/
def greatestCommonDivisor (a b : Int64) : Option Int64 :=
  contract (Int64.minValue < a ∧ Int64.minValue < b) (fun result => 0 ≤ result) do
    let left ← absolute a
    let right ← absolute b
    let settled ← walkWhileM (fun pair : Pair => decide (pair.right ≠ 0))
      (fun pair _ => (remainder pair.left pair.right).map fun rest => ⟨pair.right, rest⟩)
      (repeated (0 : Int64) euclidSteps) ⟨left, right⟩
    return settled.left

/-- Lowest terms with the sign on top. -/
def simplified (top bottom : Int64) : Option Ratio :=
  contract (Int64.minValue < top ∧ Int64.minValue < bottom ∧ bottom ≠ 0)
    (fun result => 0 < result.bottom) <|
    if top = 0 then some ⟨0, 1⟩
    else do
      let divisor ← greatestCommonDivisor top bottom
      let smallerTop ← quotient top divisor
      let smallerBottom ← quotient bottom divisor
      if smallerBottom < 0 then do
        let turnedTop ← minus 0 smallerTop
        let turnedBottom ← minus 0 smallerBottom
        return ⟨turnedTop, turnedBottom⟩
      else some ⟨smallerTop, smallerBottom⟩

/-- A ratio of two numbers, or a refusal. -/
def ratio (top bottom : Int64) : Option (Except String Ratio) :=
  if bottom = 0 then some (.error "a ratio has no denominator of zero")
  else if top ≤ Int64.minValue then
    some (.error "a ratio is not made of the smallest Int, which has no size")
  else if bottom ≤ Int64.minValue then
    some (.error "a ratio is not made of the smallest Int, which has no size")
  else (simplified top bottom).map .ok

/-- A whole number as a ratio. -/
def whole (n : Int64) : Ratio := ⟨n, 1⟩

/-- The ratio nothing is a share of. -/
def zero : Ratio := ⟨0, 1⟩

/-- The same distance from zero, the other way. -/
def negated (value : Ratio) : Option Ratio :=
  (minus 0 value.top).map fun top => ⟨top, value.bottom⟩

/-- The sum. -/
def added (left right : Ratio) : Option Ratio := do
  let top ← plus (← times left.top right.bottom) (← times right.top left.bottom)
  simplified top (← times left.bottom right.bottom)

/-- The difference. -/
def subtracted (left right : Ratio) : Option Ratio := do added left (← negated right)

/-- The product. -/
def multiplied (left right : Ratio) : Option Ratio := do
  simplified (← times left.top right.top) (← times left.bottom right.bottom)

/-- The quotient, or a refusal. -/
def divided (left right : Ratio) : Option (Except String Ratio) :=
  if right.top = 0 then some (.error "a ratio cannot be divided by zero")
  else do
    let result ← simplified (← times left.top right.bottom) (← times left.bottom right.top)
    return .ok result

/-- Whether one ratio is below the other. -/
def isBelow (left right : Ratio) : Option Bool := do
  let one ← times left.top right.bottom
  let other ← times right.top left.bottom
  return decide (one < other)

/-- A multiple of a ratio, rounded half away from zero. -/
def scaled (value : Ratio) (factor : Int64) : Option Int64 := do
  let doubled ← times (← times value.top factor) 2
  let divisor ← times value.bottom 2
  if doubled < 0 then quotient (← minus doubled value.bottom) divisor
  else quotient (← plus doubled value.bottom) divisor

/-- A power of ten. -/
def powerOfTen (digits : Int64) : Option Int64 :=
  (repeated (0 : Int64) digits).foldlM (fun total _ => times total 10) 1

/-- A text with zeros in front of it to a width. -/
def zeroPadded (shown : String) (width : Int64) : Option String := do
  let missing ← minus width (Int64.ofNat shown.length)
  if missing ≤ 0 then return shown
  else return String.intercalate "" [String.intercalate "" (repeated "0" missing), shown]

/-- A ratio written out with so many places. -/
def text (value : Ratio) (digits : Int64) : Option String := do
  let places := if digits < 0 then 0 else digits
  let scale ← powerOfTen places
  let units ← scaled value scale
  let sign := if units < 0 then "-" else ""
  let size ← absolute units
  let wholePart ← quotient size scale
  let rest ← remainder size scale
  if places = 0 then return String.intercalate "" [sign, toString wholePart.toInt]
  else
    return String.intercalate "" [sign, toString wholePart.toInt, ".",
      ← zeroPadded (toString rest.toInt) places]

end Ratio

end Deed.Stdlib
