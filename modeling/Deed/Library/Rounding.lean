import Mathlib

/-!
# Rounding a truncated quotient

Machine division rounds towards nought.  Corrected by one where the remainder
and the signs ask for it, it becomes the quotient rounded up or down, and the
rounded quotient is characterised by which multiples of the divisor the
dividend is between: a Galois connection with multiplication, whose direction
turns with the sign of the divisor.
-/

namespace Deed.Library

/-- The truncated quotient, one larger where that rounds it up. -/
def quotUp (value by_ : Int) : Int :=
  if value.tmod by_ = 0 ∨ ¬ (value < 0 ↔ by_ < 0) then value.tdiv by_
  else value.tdiv by_ + 1

/-- The truncated quotient, one smaller where that rounds it down. -/
def quotDown (value by_ : Int) : Int :=
  if value.tmod by_ = 0 ∨ (value < 0 ↔ by_ < 0) then value.tdiv by_
  else value.tdiv by_ - 1

section

variable {value by_ : Int}

/-- A dividend as a multiple of a positive divisor and a remainder on its own
side of nought that is smaller than the divisor. -/
theorem tdiv_split (value : Int) (positive : 0 < by_) :
    ∃ rest, value = by_ * value.tdiv by_ + rest ∧ rest = value.tmod by_ ∧
      (0 ≤ value → 0 ≤ rest) ∧ (value < 0 → rest ≤ 0) ∧
      -by_ < rest ∧ rest < by_ := by
  have small : (value.tmod by_).natAbs < by_.natAbs := by
    rw [Int.natAbs_tmod]
    exact Nat.mod_lt _ (by omega)
  refine ⟨value.tmod by_, (Int.mul_tdiv_add_tmod value by_).symm, rfl,
    fun nonneg => Int.tmod_nonneg _ nonneg, fun negative => ?_, by omega,
    by omega⟩
  have mirrored := Int.tmod_nonneg by_ (neg_nonneg.2 negative.le)
  rw [Int.neg_tmod] at mirrored
  omega

/-- Between consecutive multiples of a positive divisor there is no other. -/
theorem le_of_mul_lt {left right : Int} (positive : 0 < by_)
    (below : by_ * left < by_ * (right + 1)) : left ≤ right :=
  Int.lt_add_one_iff.1 (lt_of_mul_lt_mul_left below positive.le)

theorem quotUp_le_iff (positive : 0 < by_) (d : Int) :
    quotUp value by_ ≤ d ↔ value ≤ by_ * d := by
  obtain ⟨rest, whole, isMod, above, below, low, high⟩ :=
    tdiv_split value positive
  have notNeg : ¬ by_ < 0 := not_lt.2 positive.le
  unfold quotUp
  rw [← isMod]
  split
  · next rounded =>
      have nonpos : rest ≤ 0 := by
        rcases rounded with zero | signs
        · exact zero.le
        · exact below (by tauto)
      constructor
      · intro bounded
        have := mul_le_mul_of_nonneg_left bounded positive.le
        omega
      · intro bounded
        apply le_of_mul_lt positive
        rw [mul_add]
        omega
  · next rounded =>
      rw [not_or] at rounded
      have nonneg : 0 ≤ rest := above (by
        by_contra negative
        exact rounded.2 fun signs => notNeg (signs.1 (not_le.1 negative)))
      have positiveRest : 0 < rest := lt_of_le_of_ne nonneg (Ne.symm rounded.1)
      constructor
      · intro bounded
        have := mul_le_mul_of_nonneg_left bounded positive.le
        rw [mul_add] at this
        omega
      · intro bounded
        apply le_of_mul_lt positive
        rw [mul_add, mul_add]
        omega

theorem le_quotDown_iff (positive : 0 < by_) (d : Int) :
    d ≤ quotDown value by_ ↔ by_ * d ≤ value := by
  obtain ⟨rest, whole, isMod, above, below, low, high⟩ :=
    tdiv_split value positive
  have notNeg : ¬ by_ < 0 := not_lt.2 positive.le
  unfold quotDown
  rw [← isMod]
  split
  · next rounded =>
      have nonneg : 0 ≤ rest := by
        rcases rounded with zero | signs
        · exact zero.ge
        · exact above (not_lt.1 fun negative => notNeg (signs.1 negative))
      constructor
      · intro bounded
        have := mul_le_mul_of_nonneg_left bounded positive.le
        omega
      · intro bounded
        apply le_of_mul_lt positive
        rw [mul_add]
        omega
  · next rounded =>
      rw [not_or] at rounded
      have negative : value < 0 := by
        by_contra nonneg
        exact rounded.2 (by tauto)
      have negativeRest : rest < 0 := lt_of_le_of_ne (below negative) rounded.1
      constructor
      · intro bounded
        have := mul_le_mul_of_nonneg_left bounded positive.le
        rw [mul_sub] at this
        omega
      · intro bounded
        apply le_of_mul_lt positive
        rw [mul_add, mul_sub]
        omega

/-- Rounding by a negative divisor is rounding the negation by its opposite. -/
theorem quotUp_neg (nonzero : value ≠ 0) (positive : 0 < by_) :
    quotUp value (-by_) = quotUp (-value) by_ := by
  unfold quotUp
  rw [Int.tdiv_neg, Int.tmod_neg, Int.neg_tdiv, Int.neg_tmod]
  have signs : (value < 0 ↔ -by_ < 0) ↔ (-value < 0 ↔ by_ < 0) := by omega
  simp only [signs, neg_eq_zero]

theorem quotDown_neg (nonzero : value ≠ 0) (positive : 0 < by_) :
    quotDown value (-by_) = quotDown (-value) by_ := by
  unfold quotDown
  rw [Int.tdiv_neg, Int.tmod_neg, Int.neg_tdiv, Int.neg_tmod]
  have signs : (value < 0 ↔ -by_ < 0) ↔ (-value < 0 ↔ by_ < 0) := by omega
  simp only [signs, neg_eq_zero]

theorem quot_zero (by_ : Int) : quotUp 0 by_ = 0 ∧ quotDown 0 by_ = 0 := by
  simp [quotUp, quotDown]

theorem quotUp_le_iff_neg (negative : by_ < 0) (d : Int) :
    quotUp value by_ ≤ d ↔ by_ * d ≤ value := by
  have positive : 0 < -by_ := neg_pos.2 negative
  have mirror : quotUp value by_ = quotUp (-value) (-by_) := by
    by_cases zero : value = 0
    · rw [zero, neg_zero, (quot_zero _).1, (quot_zero _).1]
    · have turned := quotUp_neg zero positive
      rwa [neg_neg] at turned
  rw [mirror, quotUp_le_iff positive, neg_mul]
  omega

theorem le_quotDown_iff_neg (negative : by_ < 0) (d : Int) :
    d ≤ quotDown value by_ ↔ value ≤ by_ * d := by
  have positive : 0 < -by_ := neg_pos.2 negative
  have mirror : quotDown value by_ = quotDown (-value) (-by_) := by
    by_cases zero : value = 0
    · rw [zero, neg_zero, (quot_zero _).2, (quot_zero _).2]
    · have turned := quotDown_neg zero positive
      rwa [neg_neg] at turned
  rw [mirror, le_quotDown_iff positive, neg_mul]
  omega

end

/-- The nearest integer, and of two that are equally near the one further from nought. -/
def halfAway (number : ℚ) : Int :=
  if number < 0 then -⌊|number| + 1 / 2⌋ else ⌊|number| + 1 / 2⌋

/-- A quotient in halves is rounded down where the halved remainder is dropped. -/
theorem floor_half {top bottom : Int} (positive : 0 < bottom) :
    ⌊(top : ℚ) / bottom + 1 / 2⌋ = (top * 2 + bottom) / (bottom * 2) := by
  have positive' : (0 : ℚ) < bottom := by exact_mod_cast positive
  have whole := Int.mul_ediv_add_emod (top * 2 + bottom) (bottom * 2)
  have low := Int.emod_nonneg (top * 2 + bottom) (show bottom * 2 ≠ 0 by omega)
  have high := Int.emod_lt_of_pos (top * 2 + bottom) (show 0 < bottom * 2 by omega)
  have halves : (top : ℚ) / bottom + 1 / 2 = ((top * 2 + bottom : Int) : ℚ) / ((bottom * 2 : Int) : ℚ) := by
    push_cast
    field_simp
  have wide : (0 : ℚ) < ((bottom * 2 : Int) : ℚ) := by
    push_cast
    linarith
  rw [halves, Int.floor_eq_iff, le_div_iff₀ wide, div_lt_iff₀ wide]
  constructor
  · exact_mod_cast (show (top * 2 + bottom) / (bottom * 2) * (bottom * 2) ≤ top * 2 + bottom by
      rw [Int.mul_comm]; omega)
  · exact_mod_cast (show top * 2 + bottom < ((top * 2 + bottom) / (bottom * 2) + 1) * (bottom * 2) by
      rw [Int.add_mul, Int.one_mul, Int.mul_comm ((top * 2 + bottom) / (bottom * 2))]; omega)

/-- A quotient of doubled numbers, corrected by the divisor on the side of its sign, is the
rounded quotient. -/
theorem tdiv_halfAway {top bottom : Int} (positive : 0 < bottom) :
    (if top * 2 < 0 then top * 2 - bottom else top * 2 + bottom).tdiv (bottom * 2) =
      halfAway (top / bottom) := by
  have positive' : (0 : ℚ) < bottom := by exact_mod_cast positive
  have sign : (top : ℚ) / bottom < 0 ↔ top * 2 < 0 := by
    rw [div_lt_iff₀ positive', zero_mul]
    constructor
    · intro below
      have below' : top < 0 := by exact_mod_cast below
      omega
    · intro below
      exact_mod_cast (show top < 0 by omega)
  rw [halfAway, abs_div, abs_of_pos positive', ← Int.cast_abs, floor_half positive]
  by_cases below : top * 2 < 0
  · rw [if_pos below, if_pos (sign.mpr below), abs_of_neg (by omega)]
    have turned : top * 2 - bottom = -(-top * 2 + bottom) := by omega
    rw [turned, Int.neg_tdiv, Int.tdiv_eq_ediv_of_nonneg (by omega)]
  · rw [if_neg below, if_neg (mt sign.mp below), abs_of_nonneg (by omega),
      Int.tdiv_eq_ediv_of_nonneg (by omega)]

end Deed.Library
