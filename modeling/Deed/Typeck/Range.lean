import Deed.Library.Word

/-!
# Ranges of integers

`facts.rs` keeps what it knows about an integer as a closed range, and every
operation on one clamps at the edges of `i64`.  The definitions follow the
source operation by operation.

A range is read in two ways.  `value ∈ range` is membership, and it is how the
range of a name or of a runtime value is read.  `range.Allows value` reads an
end that sits on an edge of `i64` as no bound at all, which is how a recorded
difference or total has to be read, since its true value need not be an `i64`.
-/

namespace Deed.Typeck

open Deed.Library

/-- A closed range of integers, or nothing at all. -/
inductive Range where
  | empty
  | bounded (low high : Int64)
deriving DecidableEq, Repr

namespace Range

def any : Range := .bounded Int64.minValue Int64.maxValue

def exactly (value : Int64) : Range := .bounded value value

def between (low high : Int64) : Range :=
  if low > high then .empty else .bounded low high

def isAny (range : Range) : Bool := range == any

def bounds : Range → Option (Int64 × Int64)
  | .empty => none
  | .bounded low high => some (low, high)

/-- Everything in both, which is what narrowing on a condition does. -/
def meet (left right : Range) : Range :=
  match left.bounds, right.bounds with
  | some (aLow, aHigh), some (bLow, bHigh) =>
      between (max aLow bLow) (min aHigh bHigh)
  | _, _ => .empty

/-- Everything in either, which is what joining two branches does. -/
def join (left right : Range) : Range :=
  match left.bounds, right.bounds with
  | some (aLow, aHigh), some (bLow, bHigh) =>
      between (min aLow bLow) (max aHigh bHigh)
  | some _, none => left
  | none, some _ => right
  | none, none => .empty

def add (left right : Range) : Range :=
  match left.bounds, right.bounds with
  | some (aLow, aHigh), some (bLow, bHigh) =>
      between (saturate (aLow.toInt + bLow.toInt))
        (saturate (aHigh.toInt + bHigh.toInt))
  | _, _ => .empty

def sub (left right : Range) : Range :=
  match right.bounds with
  | some (low, high) =>
      left.add (between (saturate (-high.toInt)) (saturate (-low.toInt)))
  | none => .empty

def mul (left right : Range) : Range :=
  match left.bounds, right.bounds with
  | some (aLow, aHigh), some (bLow, bHigh) =>
      let c1 := saturate (aLow.toInt * bLow.toInt)
      let c2 := saturate (aLow.toInt * bHigh.toInt)
      let c3 := saturate (aHigh.toInt * bLow.toInt)
      let c4 := saturate (aHigh.toInt * bHigh.toInt)
      between (min (min c1 c2) (min c3 c4)) (max (max c1 c2) (max c3 c4))
  | _, _ => .empty

def negate (range : Range) : Range :=
  match range.bounds with
  | some (low, high) => between (saturate (-high.toInt)) (saturate (-low.toInt))
  | none => .empty

/-- The difference of two ranges, clamped rather than given up on. -/
def spread (left right : Range) : Range :=
  match left.bounds, right.bounds with
  | some (aLow, aHigh), some (bLow, bHigh) =>
      between (saturate (aLow.toInt - bHigh.toInt))
        (saturate (aHigh.toInt - bLow.toInt))
  | _, _ => .empty

/-- The sum of two ranges, clamped for the same reason. -/
def shift (left right : Range) : Range :=
  match left.bounds, right.bounds with
  | some (aLow, aHigh), some (bLow, bHigh) =>
      between (saturate (aLow.toInt + bLow.toInt))
        (saturate (aHigh.toInt + bHigh.toInt))
  | _, _ => .empty

/-- Every value multiplied; a negative factor swaps the ends. -/
def times (range : Range) (factor : Int64) : Range :=
  match range.bounds with
  | some (low, high) =>
      let one := saturate (low.toInt * factor.toInt)
      let other := saturate (high.toInt * factor.toInt)
      between (min one other) (max one other)
  | none => .empty

/-! ## Membership -/

/-- The integers a range holds. -/
def Holds : Range → Int → Prop
  | .empty, _ => False
  | .bounded low high, value => low.toInt ≤ value ∧ value ≤ high.toInt

instance : Membership Int Range := ⟨fun range value => range.Holds value⟩

instance (value : Int) (range : Range) : Decidable (value ∈ range) :=
  match range with
  | .empty => inferInstanceAs (Decidable False)
  | .bounded _ _ => inferInstanceAs (Decidable (_ ∧ _))

@[simp]
theorem not_mem_empty (value : Int) : ¬ value ∈ (Range.empty : Range) :=
  fun member => member

@[simp]
theorem mem_bounded {low high : Int64} {value : Int} :
    value ∈ Range.bounded low high ↔
      low.toInt ≤ value ∧ value ≤ high.toInt :=
  Iff.rfl

@[simp]
theorem mem_between {low high : Int64} {value : Int} :
    value ∈ between low high ↔ low.toInt ≤ value ∧ value ≤ high.toInt := by
  unfold between
  split
  · next reversed =>
      have := Int64.lt_iff_toInt_lt.1 reversed
      simp only [not_mem_empty, false_iff]
      omega
  · exact mem_bounded

@[simp]
theorem mem_exactly {constant : Int64} {value : Int} :
    value ∈ exactly constant ↔ value = constant.toInt := by
  simp only [exactly, mem_bounded]
  omega

@[simp]
theorem mem_any {value : Int} : value ∈ any ↔ InI64 value := Iff.rfl

@[simp]
theorem mem_meet {left right : Range} {value : Int} :
    value ∈ left.meet right ↔ value ∈ left ∧ value ∈ right := by
  cases left <;> cases right <;>
    simp only [meet, bounds, mem_between, mem_bounded, not_mem_empty,
      and_false, false_and, toInt_max, toInt_min, max_le_iff, le_min_iff]
  tauto

/-- A range with a member is not empty. -/
theorem exists_bounds {range : Range} {value : Int} (member : value ∈ range) :
    ∃ low high : Int64, range = .bounded low high ∧
      low.toInt ≤ value ∧ value ≤ high.toInt := by
  cases range with
  | empty => exact absurd member (not_mem_empty value)
  | bounded low high => exact ⟨low, high, rfl, member⟩

/-- A range holds nothing but words. -/
theorem inI64_of_mem {range : Range} {value : Int} (member : value ∈ range) :
    InI64 value := by
  obtain ⟨low, high, rfl, lower, upper⟩ := exists_bounds member
  exact ⟨(inI64_toInt low).1.trans lower, upper.trans (inI64_toInt high).2⟩

/-! ## Every operation holds the exact result, when that is an `i64` -/

theorem mem_add {left right : Range} {x y : Int}
    (xMem : x ∈ left) (yMem : y ∈ right) (fits : InI64 (x + y)) :
    x + y ∈ left.add right := by
  obtain ⟨aLow, aHigh, rfl, ax, xa⟩ := exists_bounds xMem
  obtain ⟨bLow, bHigh, rfl, bY, yb⟩ := exists_bounds yMem
  simp only [add, bounds, mem_between]
  exact ⟨saturate_le (add_le_add ax bY) fits, le_saturate (add_le_add xa yb) fits⟩

theorem mem_negate {range : Range} {x : Int}
    (member : x ∈ range) (fits : InI64 (-x)) : -x ∈ range.negate := by
  obtain ⟨low, high, rfl, lx, xh⟩ := exists_bounds member
  simp only [negate, bounds, mem_between]
  exact ⟨saturate_le (neg_le_neg xh) fits, le_saturate (neg_le_neg lx) fits⟩

/-- Subtracting adds the negation, so the subtrahend's negation has to be an
`i64` as well: `-1 - i64::MIN` is one and is not in the answer. -/
theorem mem_sub {left right : Range} {x y : Int}
    (xMem : x ∈ left) (yMem : y ∈ right)
    (negFits : InI64 (-y)) (fits : InI64 (x - y)) :
    x - y ∈ left.sub right := by
  have negMem := mem_negate yMem negFits
  obtain ⟨low, high, rfl, ly, yh⟩ := exists_bounds yMem
  have added := mem_add xMem negMem (by rwa [← sub_eq_add_neg])
  rwa [← sub_eq_add_neg] at added

theorem mem_mul {left right : Range} {x y : Int}
    (xMem : x ∈ left) (yMem : y ∈ right) (fits : InI64 (x * y)) :
    x * y ∈ left.mul right := by
  obtain ⟨a, b, rfl, ax, xb⟩ := exists_bounds xMem
  obtain ⟨c, d, rfl, cy, yd⟩ := exists_bounds yMem
  simp only [mul, bounds, mem_between, toInt_min, toInt_max,
    min_le_iff, le_max_iff]
  constructor
  · rcases corner_le_mul ax xb cy yd with (low | low) | (low | low)
    · exact Or.inl (Or.inl (saturate_le low fits))
    · exact Or.inl (Or.inr (saturate_le low fits))
    · exact Or.inr (Or.inl (saturate_le low fits))
    · exact Or.inr (Or.inr (saturate_le low fits))
  · rcases mul_le_corner ax xb cy yd with (high | high) | (high | high)
    · exact Or.inl (Or.inl (le_saturate high fits))
    · exact Or.inl (Or.inr (le_saturate high fits))
    · exact Or.inr (Or.inl (le_saturate high fits))
    · exact Or.inr (Or.inr (le_saturate high fits))

theorem mem_times {range : Range} {x : Int} {factor : Int64}
    (member : x ∈ range) (fits : InI64 (x * factor.toInt)) :
    x * factor.toInt ∈ range.times factor := by
  obtain ⟨low, high, rfl, lx, xh⟩ := exists_bounds member
  simp only [times, bounds, mem_between, toInt_min, toInt_max,
    min_le_iff, le_max_iff]
  constructor
  · rcases end_mul_le factor.toInt lx xh with below | below
    · exact Or.inl (saturate_le below fits)
    · exact Or.inr (saturate_le below fits)
  · rcases mul_le_end factor.toInt lx xh with above | above
    · exact Or.inl (le_saturate above fits)
    · exact Or.inr (le_saturate above fits)

theorem mem_shift {left right : Range} {x y : Int}
    (xMem : x ∈ left) (yMem : y ∈ right) (fits : InI64 (x + y)) :
    x + y ∈ left.shift right := mem_add xMem yMem fits

theorem mem_spread {left right : Range} {x y : Int}
    (xMem : x ∈ left) (yMem : y ∈ right) (fits : InI64 (x - y)) :
    x - y ∈ left.spread right := by
  obtain ⟨aLow, aHigh, rfl, ax, xa⟩ := exists_bounds xMem
  obtain ⟨bLow, bHigh, rfl, bY, yb⟩ := exists_bounds yMem
  simp only [spread, bounds, mem_between]
  exact ⟨saturate_le (by omega) fits, le_saturate (by omega) fits⟩

/-! ## Reading an edge as no bound -/

/-- The integers a range allows when an end on an edge of `i64` is no bound. -/
def Allows : Range → Int → Prop
  | .empty, _ => False
  | .bounded low high, value =>
      (low = Int64.minValue ∨ low.toInt ≤ value) ∧
        (high = Int64.maxValue ∨ value ≤ high.toInt)

instance (range : Range) (value : Int) : Decidable (range.Allows value) :=
  match range with
  | .empty => inferInstanceAs (Decidable False)
  | .bounded _ _ => inferInstanceAs (Decidable (_ ∧ _))

/-- Ends that each allow a value are in order, so the range is not empty. -/
theorem allows_between {low high : Int64} {value : Int}
    (lower : low = Int64.minValue ∨ low.toInt ≤ value)
    (upper : high = Int64.maxValue ∨ value ≤ high.toInt) :
    (between low high).Allows value := by
  have ordered : ¬ low > high := by
    rw [gt_iff_lt, Int64.lt_iff_toInt_lt]
    have lowest := inI64_toInt high
    have highest := inI64_toInt low
    rw [inI64_iff] at lowest highest
    rcases lower with rfl | lower
    · change ¬ high.toInt < -9223372036854775808
      omega
    · rcases upper with rfl | upper
      · change ¬ 9223372036854775807 < low.toInt
        omega
      · omega
  rw [between, if_neg ordered]
  exact ⟨lower, upper⟩

theorem any_allows (value : Int) : any.Allows value :=
  ⟨Or.inl rfl, Or.inl rfl⟩

theorem Allows.of_mem {range : Range} {value : Int} (member : value ∈ range) :
    range.Allows value := by
  obtain ⟨low, high, rfl, lower, upper⟩ := exists_bounds member
  exact ⟨Or.inr lower, Or.inr upper⟩

/-- On an `i64` the two readings agree. -/
theorem Allows.mem {range : Range} {value : Int}
    (allows : range.Allows value) (fits : InI64 value) : value ∈ range := by
  cases range with
  | empty => exact allows
  | bounded low high =>
      obtain ⟨lower, upper⟩ := allows
      rw [mem_bounded]
      constructor
      · rcases lower with rfl | lower
        · exact fits.1
        · exact lower
      · rcases upper with rfl | upper
        · exact fits.2
        · exact upper

theorem Allows.meet {left right : Range} {value : Int}
    (leftAllows : left.Allows value) (rightAllows : right.Allows value) :
    (left.meet right).Allows value := by
  cases left with
  | empty => exact leftAllows.elim
  | bounded aLow aHigh =>
      cases right with
      | empty => exact rightAllows.elim
      | bounded bLow bHigh =>
          obtain ⟨aLower, aUpper⟩ := leftAllows
          obtain ⟨bLower, bUpper⟩ := rightAllows
          have lower : max aLow bLow = Int64.minValue ∨
              (max aLow bLow).toInt ≤ value := by
            rcases le_total aLow.toInt bLow.toInt with order | order
            · rw [eq_max_right order]
              exact bLower
            · rw [eq_max_left order]
              exact aLower
          have upper : min aHigh bHigh = Int64.maxValue ∨
              value ≤ (min aHigh bHigh).toInt := by
            rcases le_total aHigh.toInt bHigh.toInt with order | order
            · rw [eq_min_left order]
              exact aUpper
            · rw [eq_min_right order]
              exact bUpper
          exact allows_between lower upper

/-! ## Values a range holds up to clamping

A difference the program never computes may lie outside `i64`, and the ranges
kept for it are about the nearest word.
-/

/-- The word nearest to an integer, as an integer. -/
abbrev nearest (value : Int) : Int := clamp minI64 maxI64 value

theorem nearest_mono {left right : Int} (order : left ≤ right) :
    nearest left ≤ nearest right := clamp_mono order

theorem nearest_of_inI64 {value : Int} (fits : InI64 value) :
    nearest value = value := clamp_of_mem fits.1 fits.2

/-- The nearest word is the integer itself or the end of `i64` it lies beyond. -/
theorem nearest_cases (value : Int) :
    nearest value = value ∨
      (nearest value = -9223372036854775808 ∧ value < -9223372036854775808) ∨
      (nearest value = 9223372036854775807 ∧ 9223372036854775807 < value) :=
  clamp_cases (show minI64 ≤ maxI64 by decide) value

theorem nearest_mem_spread {left right : Range} {x y : Int}
    (xMem : x ∈ left) (yMem : y ∈ right) :
    nearest (x - y) ∈ left.spread right := by
  obtain ⟨aLow, aHigh, rfl, ax, xa⟩ := exists_bounds xMem
  obtain ⟨bLow, bHigh, rfl, bY, yb⟩ := exists_bounds yMem
  simp only [spread, bounds, mem_between, toInt_saturate]
  exact ⟨nearest_mono (by omega), nearest_mono (by omega)⟩

theorem toInt_saturate_nearest (value : Int) :
    (saturate value).toInt = nearest value := toInt_saturate value

/-- A clamped end is on an edge or has not moved. -/
theorem saturate_low {bound value : Int} (below : bound ≤ value) :
    saturate bound = Int64.minValue ∨ (saturate bound).toInt ≤ value := by
  rcases nearest_cases bound with same | ⟨edge, -⟩ | ⟨edge, beyond⟩
  · right
    rw [toInt_saturate_nearest, same]
    exact below
  · left
    exact Int64.toInt_inj.1 (by rw [toInt_saturate_nearest, edge]; rfl)
  · right
    rw [toInt_saturate_nearest, edge]
    omega

theorem saturate_high {bound value : Int} (above : value ≤ bound) :
    saturate bound = Int64.maxValue ∨ value ≤ (saturate bound).toInt := by
  rcases nearest_cases bound with same | ⟨edge, beyond⟩ | ⟨edge, -⟩
  · right
    rw [toInt_saturate_nearest, same]
    exact above
  · right
    rw [toInt_saturate_nearest, edge]
    omega
  · left
    exact Int64.toInt_inj.1 (by rw [toInt_saturate_nearest, edge]; rfl)

theorem allows_spread {left right : Range} {x y : Int}
    (xMem : x ∈ left) (yMem : y ∈ right) :
    (left.spread right).Allows (x - y) := by
  obtain ⟨aLow, aHigh, rfl, ax, xa⟩ := exists_bounds xMem
  obtain ⟨bLow, bHigh, rfl, bY, yb⟩ := exists_bounds yMem
  exact allows_between (saturate_low (by omega)) (saturate_high (by omega))

theorem allows_shift {left right : Range} {x y : Int}
    (xMem : x ∈ left) (yMem : y ∈ right) :
    (left.shift right).Allows (x + y) := by
  obtain ⟨aLow, aHigh, rfl, ax, xa⟩ := exists_bounds xMem
  obtain ⟨bLow, bHigh, rfl, bY, yb⟩ := exists_bounds yMem
  exact allows_between (saturate_low (by omega)) (saturate_high (by omega))

/-- Adding `offset` to a range recorded for `value` does not turn an edge that
was no bound on `value` into one. -/
def Clears (offset : Range) (value : Int) : Prop :=
  match offset with
  | .empty => True
  | .bounded low high =>
      (value < minI64 → low.toInt ≤ 0) ∧ (maxI64 < value → 0 ≤ high.toInt)

instance (offset : Range) (value : Int) : Decidable (offset.Clears value) :=
  match offset with
  | .empty => inferInstanceAs (Decidable True)
  | .bounded _ _ => inferInstanceAs (Decidable (_ ∧ _))

theorem Clears.of_inI64 {offset : Range} {value : Int} (fits : InI64 value) :
    offset.Clears value := by
  cases offset with
  | empty => exact trivial
  | bounded low high =>
      exact ⟨fun under => absurd fits.1 (not_le.2 under),
        fun above => absurd fits.2 (not_le.2 above)⟩

theorem nearest_mem_shift {recorded offset : Range} {base rest : Int}
    (allows : recorded.Allows base) (restMem : rest ∈ offset)
    (clears : offset.Clears base) :
    nearest (base + rest) ∈ recorded.shift offset := by
  obtain ⟨oLow, oHigh, rfl, lower, upper⟩ := exists_bounds restMem
  cases recorded with
  | empty => exact allows.elim
  | bounded low high =>
      obtain ⟨below, above⟩ := allows
      simp only [shift, bounds, mem_between, toInt_saturate]
      have lowEnd : low.toInt ≤ base ∨ (low.toInt + oLow.toInt ≤ minI64) := by
        rcases below with rfl | below
        · rcases lt_or_ge base minI64 with under | inside
          · have moved := clears.1 under
            right
            change -9223372036854775808 + oLow.toInt ≤ -9223372036854775808
            omega
          · exact Or.inl inside
        · exact Or.inl below
      have highEnd : base ≤ high.toInt ∨ (maxI64 ≤ high.toInt + oHigh.toInt) := by
        rcases above with rfl | above
        · rcases lt_or_ge maxI64 base with beyond | inside
          · have moved := clears.2 beyond
            right
            change 9223372036854775807 ≤ 9223372036854775807 + oHigh.toInt
            omega
          · exact Or.inl inside
        · exact Or.inl above
      constructor
      · rcases lowEnd with exact_ | edge
        · exact nearest_mono (by omega)
        · calc
            nearest (low.toInt + oLow.toInt) ≤ nearest minI64 :=
              nearest_mono edge
            _ = minI64 := nearest_of_inI64 (by decide)
            _ ≤ nearest (base + rest) := low_le_clamp _
      · rcases highEnd with exact_ | edge
        · exact nearest_mono (by omega)
        · calc
            nearest (base + rest) ≤ maxI64 := clamp_le_high (by decide) _
            _ = nearest maxI64 := (nearest_of_inI64 (by decide)).symm
            _ ≤ nearest (high.toInt + oHigh.toInt) := nearest_mono edge

end Range

end Deed.Typeck
