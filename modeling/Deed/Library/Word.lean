import Deed.Library.Saturation

/-!
# Checked and saturating arithmetic on 64-bit words

An operation on two `Int64` is named by the exact integer it would compute:
`checked` answers a word when that integer is one, and `saturate` answers the
nearest word.  Everything else here reads a word back as an integer.
-/

namespace Deed.Library

abbrev minI64 : Int := -9223372036854775808
abbrev maxI64 : Int := 9223372036854775807

/-- The integers a 64-bit word holds. -/
def InI64 (value : Int) : Prop := minI64 ≤ value ∧ value ≤ maxI64

instance (value : Int) : Decidable (InI64 value) :=
  inferInstanceAs (Decidable (_ ∧ _))

/-- The two bounds as literals, which is how `omega` reads them. -/
theorem inI64_iff {value : Int} :
    InI64 value ↔
      -9223372036854775808 ≤ value ∧ value ≤ 9223372036854775807 :=
  Iff.rfl

/-- Every word reads back as an integer it can hold. -/
theorem inI64_toInt (word : Int64) : InI64 word.toInt := by
  have lower := word.le_toInt
  have upper := word.toInt_lt
  rw [inI64_iff]
  omega

theorem toInt_ofInt {value : Int} (fits : InI64 value) :
    (Int64.ofInt value).toInt = value := by
  rw [inI64_iff] at fits
  exact Int64.toInt_ofInt_of_le (by omega) (by omega)

/-- What a checked operation answers when its exact result is `value`. -/
def checked (value : Int) : Option Int64 :=
  if InI64 value then some (Int64.ofInt value) else none

theorem checked_eq_some {value : Int} {word : Int64} :
    checked value = some word ↔ word.toInt = value := by
  unfold checked
  constructor
  · intro equal
    split at equal
    · next fits =>
        cases equal
        exact toInt_ofInt fits
    · cases equal
  · rintro rfl
    rw [if_pos (inI64_toInt word), Int64.ofInt_toInt]

theorem checked_eq_none {value : Int} :
    checked value = none ↔ ¬ InI64 value := by
  unfold checked
  split <;> simp_all

/-- What a saturating operation answers when its exact result is `value`. -/
def saturate (value : Int) : Int64 := Int64.ofInt (clamp minI64 maxI64 value)

theorem toInt_saturate (value : Int) :
    (saturate value).toInt = clamp minI64 maxI64 value :=
  toInt_ofInt ⟨low_le_clamp _, clamp_le_high (by decide) _⟩

/-- A saturated lower end is below every word its exact value is below. -/
theorem saturate_le {bound value : Int}
    (bounded : bound ≤ value) (fits : InI64 value) :
    (saturate bound).toInt ≤ value := by
  rw [toInt_saturate]
  exact clamp_le_of_le bounded fits.1

/-- A saturated upper end is above every word its exact value is above. -/
theorem le_saturate {bound value : Int}
    (bounded : value ≤ bound) (fits : InI64 value) :
    value ≤ (saturate bound).toInt := by
  rw [toInt_saturate]
  exact le_clamp_of_le bounded fits.2

@[simp]
theorem toInt_max (left right : Int64) :
    (max left right).toInt = max left.toInt right.toInt := by
  change (if left ≤ right then right else left).toInt = _
  rw [max_def]
  simp only [Int64.le_iff_toInt_le]
  split <;> rfl

@[simp]
theorem toInt_min (left right : Int64) :
    (min left right).toInt = min left.toInt right.toInt := by
  change (if left ≤ right then left else right).toInt = _
  rw [min_def]
  simp only [Int64.le_iff_toInt_le]
  split <;> rfl

theorem eq_max_left {left right : Int64} (order : right.toInt ≤ left.toInt) :
    max left right = left :=
  Int64.toInt_inj.1 (by rw [toInt_max, max_eq_left order])

theorem eq_max_right {left right : Int64} (order : left.toInt ≤ right.toInt) :
    max left right = right :=
  Int64.toInt_inj.1 (by rw [toInt_max, max_eq_right order])

theorem eq_min_left {left right : Int64} (order : left.toInt ≤ right.toInt) :
    min left right = left :=
  Int64.toInt_inj.1 (by rw [toInt_min, min_eq_left order])

theorem eq_min_right {left right : Int64} (order : right.toInt ≤ left.toInt) :
    min left right = right :=
  Int64.toInt_inj.1 (by rw [toInt_min, min_eq_right order])

end Deed.Library
