import Mathlib

/-!
# Saturating arithmetic on a closed interval

A machine integer that saturates answers the point of `[low, high]` closest to
the exact result.  What makes that usable as the end of a range is one fact in
two directions: a clamped lower end is still below everything in the interval
that the exact end was below, and dually.  Nothing here mentions a width, and
nothing is about the exact value being inside the interval.

The second half is the interval product: an affine function of one variable is
extremal at an end, so a product is bounded by one of its four corners.
-/

namespace Deed.Library

section Clamp

variable {α : Type*} [LinearOrder α] {low high : α}

/-- The point of `[low, high]` closest to `value`. -/
def clamp (low high value : α) : α := max low (min high value)

theorem clamp_of_mem {value : α}
    (above : low ≤ value) (below : value ≤ high) :
    clamp low high value = value := by
  rw [clamp, min_eq_right below, max_eq_right above]

theorem low_le_clamp (value : α) : low ≤ clamp low high value :=
  le_max_left _ _

theorem clamp_le_high (ordered : low ≤ high) (value : α) :
    clamp low high value ≤ high :=
  max_le ordered (min_le_left _ _)

/-- A clamped lower end stays a lower end of everything inside. -/
theorem clamp_le_of_le {bound value : α}
    (bounded : bound ≤ value) (inside : low ≤ value) :
    clamp low high bound ≤ value :=
  max_le inside ((min_le_right _ _).trans bounded)

/-- A clamped upper end stays an upper end of everything inside. -/
theorem le_clamp_of_le {bound value : α}
    (bounded : value ≤ bound) (inside : value ≤ high) :
    value ≤ clamp low high bound :=
  (le_min inside bounded).trans (le_max_right _ _)

theorem clamp_mono {left right : α} (ordered : left ≤ right) :
    clamp low high left ≤ clamp low high right :=
  max_le_max le_rfl (min_le_min le_rfl ordered)

/-- A clamped value is either exact or sits on the end it fell off. -/
theorem clamp_cases (ordered : low ≤ high) (value : α) :
    clamp low high value = value ∨
      (clamp low high value = low ∧ value < low) ∨
      (clamp low high value = high ∧ high < value) := by
  rcases lt_or_ge value low with under | above
  · right; left
    refine ⟨?_, under⟩
    rw [clamp, min_eq_right (under.le.trans ordered), max_eq_left under.le]
  · rcases lt_or_ge high value with above_ | below
    · right; right
      refine ⟨?_, above_⟩
      rw [clamp, min_eq_left above_.le, max_eq_right ordered]
    · exact Or.inl (clamp_of_mem above below)

end Clamp

section Corners

variable {R : Type*} [CommRing R] [LinearOrder R] [IsStrictOrderedRing R]

/-- Scaling an interval by a fixed factor is bounded below by an end. -/
theorem end_mul_le (factor : R) {left right value : R}
    (above : left ≤ value) (below : value ≤ right) :
    left * factor ≤ value * factor ∨ right * factor ≤ value * factor := by
  rcases le_total 0 factor with nonneg | nonpos
  · exact Or.inl (mul_le_mul_of_nonneg_right above nonneg)
  · exact Or.inr (mul_le_mul_of_nonpos_right below nonpos)

theorem mul_le_end (factor : R) {left right value : R}
    (above : left ≤ value) (below : value ≤ right) :
    value * factor ≤ left * factor ∨ value * factor ≤ right * factor := by
  rcases le_total 0 factor with nonneg | nonpos
  · exact Or.inr (mul_le_mul_of_nonneg_right below nonneg)
  · exact Or.inl (mul_le_mul_of_nonpos_right above nonpos)

/-- One of the four corners is below the product. -/
theorem corner_le_mul {a b c d x y : R}
    (ax : a ≤ x) (xb : x ≤ b) (cy : c ≤ y) (yd : y ≤ d) :
    (a * c ≤ x * y ∨ a * d ≤ x * y) ∨ (b * c ≤ x * y ∨ b * d ≤ x * y) := by
  have corner (left : R) (bound : left * y ≤ x * y) :
      left * c ≤ x * y ∨ left * d ≤ x * y := by
    rcases end_mul_le left cy yd with low | low
    · left; linarith
    · right; linarith
  rcases end_mul_le y ax xb with low | low
  · exact Or.inl (corner a low)
  · exact Or.inr (corner b low)

/-- One of the four corners is above the product. -/
theorem mul_le_corner {a b c d x y : R}
    (ax : a ≤ x) (xb : x ≤ b) (cy : c ≤ y) (yd : y ≤ d) :
    (x * y ≤ a * c ∨ x * y ≤ a * d) ∨ (x * y ≤ b * c ∨ x * y ≤ b * d) := by
  have corner (left : R) (bound : x * y ≤ left * y) :
      x * y ≤ left * c ∨ x * y ≤ left * d := by
    rcases mul_le_end left cy yd with high | high
    · left; linarith
    · right; linarith
  rcases mul_le_end y ax xb with high | high
  · exact Or.inl (corner a high)
  · exact Or.inr (corner b high)

end Corners

end Deed.Library
