import Mathlib

/-!
# The order of numerals

Decimal numerals of one width are in the order of their numbers, character by character.  Of
numerals of two widths the longer one begins with a numeral of the shorter width, and that is
what decides.
-/

namespace Deed.Library

/-- Texts whose fronts are equally long are compared by their fronts first. -/
theorem append_lt_append_iff {front front' back back' : List Char}
    (same : front.length = front'.length) :
    front ++ back < front' ++ back' ↔ front < front' ∨ front = front' ∧ back < back' := by
  induction front generalizing front' with
  | nil =>
      rw [List.eq_nil_of_length_eq_zero same.symm]
      simp
  | cons head front ih =>
      cases front' with
      | nil => cases same
      | cons head' front' =>
          have rest := ih (Nat.succ.inj same)
          rw [List.cons_append, List.cons_append, List.cons_lt_cons_iff, List.cons_lt_cons_iff,
            rest, List.cons.injEq]
          tauto

/-- How many decimal digits a number is written with. -/
def width (number : ℕ) : ℕ := (Nat.toDigits 10 number).length

theorem digitChar_lt_iff : ∀ first < 10, ∀ second < 10,
    (Nat.digitChar first < Nat.digitChar second ↔ first < second) := by
  decide

theorem toDigits_inj {first second : ℕ} (same : Nat.toDigits 10 first = Nat.toDigits 10 second) :
    first = second := by
  rw [← @Nat.ofDigitChars_ten_toDigits first, same, Nat.ofDigitChars_ten_toDigits]

theorem width_of_lt {number : ℕ} (small : number < 10) : width number = 1 := by
  rw [width, Nat.toDigits_of_lt_base small]
  rfl

theorem width_of_le {number : ℕ} (large : 10 ≤ number) : width number = width (number / 10) + 1 := by
  rw [width, Nat.toDigits_of_base_le (by decide) large, List.length_append]
  rfl

theorem width_pos (number : ℕ) : 0 < width number := Nat.length_toDigits_pos

/-- A number that is written with fewer digits is less. -/
theorem lt_of_width_lt {first second : ℕ} (less : width first < width second) : first < second := by
  have short : first < 10 ^ width first :=
    (Nat.length_toDigits_le_iff (by decide) (width_pos first)).mp (le_refl _)
  have long := mt (Nat.length_toDigits_le_iff (n := second) (b := 10) (by decide)
    (width_pos first)).mpr (not_le.mpr less)
  omega

/-- Numerals of one width are in the order of their numbers. -/
theorem toDigits_lt_iff {first second : ℕ} (same : width first = width second) :
    Nat.toDigits 10 first < Nat.toDigits 10 second ↔ first < second := by
  induction first using Nat.strong_induction_on generalizing second with
  | _ first ih =>
      by_cases small : first < 10
      · have small' : second < 10 := by
          by_contra large
          have longer := width_of_le (not_lt.mp large)
          have some_ := width_pos (second / 10)
          rw [width_of_lt small] at same
          omega
        rw [Nat.toDigits_of_lt_base small, Nat.toDigits_of_lt_base small']
        rw [List.cons_lt_cons_iff, digitChar_lt_iff first small second small']
        simp
      · have large' : 10 ≤ second := by
          by_contra small'
          have longer := width_of_le (not_lt.mp small)
          have some_ := width_pos (first / 10)
          rw [width_of_lt (not_le.mp small')] at same
          omega
        have fronts : width (first / 10) = width (second / 10) := by
          have longer := width_of_le (not_lt.mp small)
          have longer' := width_of_le large'
          omega
        have equal : Nat.toDigits 10 (first / 10) = Nat.toDigits 10 (second / 10) ↔
            first / 10 = second / 10 := ⟨toDigits_inj, congrArg _⟩
        rw [Nat.toDigits_of_base_le (by decide) (not_lt.mp small),
          Nat.toDigits_of_base_le (by decide) large', append_lt_append_iff fronts,
          ih (first / 10) (by omega) fronts, equal, List.cons_lt_cons_iff,
          digitChar_lt_iff _ (Nat.mod_lt _ (by decide)) _ (Nat.mod_lt _ (by decide))]
        simp only [List.not_lt_nil, and_false, or_false]
        omega

/-- A longer numeral is a numeral of each shorter width and digits after it. -/
theorem toDigits_split (number : ℕ) {last : ℕ} (within : last < width number) :
    ∃ digits, Nat.toDigits 10 number = Nat.toDigits 10 (number / 10 ^ last) ++ digits ∧
      digits.length = last ∧ ∀ digit ∈ digits, ∃ value < 10, digit = Nat.digitChar value := by
  induction last generalizing number with
  | zero =>
      refine ⟨[], ?_, rfl, fun digit there => absurd there List.not_mem_nil⟩
      rw [pow_zero, Nat.div_one, List.append_nil]
  | succ last ih =>
      have large : 10 ≤ number := by
        by_contra small
        rw [width_of_lt (not_le.mp small)] at within
        omega
      rcases ih (number / 10) (by have longer := width_of_le large; omega) with
        ⟨digits, split, count, each⟩
      refine ⟨digits ++ [Nat.digitChar (number % 10)], ?_, ?_, ?_⟩
      · rw [Nat.toDigits_of_base_le (by decide) large, split, List.append_assoc,
          Nat.div_div_eq_div_mul, pow_succ']
      · rw [List.length_append, count]
        rfl
      · intro digit there
        rcases List.mem_append.mp there with front | end_
        · exact each digit front
        · rw [List.mem_singleton] at end_
          exact ⟨_, Nat.mod_lt _ (by decide), end_⟩

end Deed.Library
