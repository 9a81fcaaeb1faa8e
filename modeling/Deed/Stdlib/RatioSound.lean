import Deed.Library.Euclid
import Deed.Library.Rounding
import Deed.Stdlib.Ratio

/-!
# Shipped ratios are exact

Every function of the module that does not stop answers with the exact rational number, in
lowest terms, so the structural equality of the language is the equality of rationals.
-/

namespace Deed.Stdlib

/-- A contract is checked before and after the body. -/
theorem contract_eq_some {α : Type} {required : Prop} [Decidable required] {ensured : α → Prop}
    [DecidablePred ensured] {body : Option α} {result : α} :
    contract required ensured body = some result ↔
      required ∧ body = some result ∧ ensured result := by
  rw [contract]
  split_ifs with holds
  · rw [Option.filter_eq_some_iff, decide_eq_true_eq, and_iff_right holds]
  · exact iff_of_false (by rintro ⟨⟩) fun both => holds both.1

variable {a b c : Int64}

theorem plus_eq_some : plus a b = some c ↔ c.toInt = a.toInt + b.toInt := checked_eq_some

theorem minus_eq_some : minus a b = some c ↔ c.toInt = a.toInt - b.toInt := checked_eq_some

theorem times_eq_some : times a b = some c ↔ c.toInt = a.toInt * b.toInt := checked_eq_some

theorem quotient_eq_some :
    quotient a b = some c ↔ b.toInt ≠ 0 ∧ c.toInt = a.toInt.tdiv b.toInt := by
  have zero : b = 0 ↔ b.toInt = 0 := Int64.toInt_inj.symm
  rw [quotient, Ne, ← zero]
  split_ifs with same
  · exact iff_of_false (by rintro ⟨⟩) fun both => both.1 same
  · rw [checked_eq_some, and_iff_right same]

theorem remainder_eq_some :
    remainder a b = some c ↔ b.toInt ≠ 0 ∧ ¬(a = Int64.minValue ∧ b = -1) ∧
      c.toInt = a.toInt.tmod b.toInt := by
  have zero : b = 0 ↔ b.toInt = 0 := Int64.toInt_inj.symm
  rw [remainder, Ne, ← zero, ← and_assoc, ← not_or]
  split_ifs with same
  · exact iff_of_false (by rintro ⟨⟩) fun both => both.1 same
  · rw [checked_eq_some, and_iff_right same]

namespace Ratio

theorem minValue_lt : Int64.minValue < a ↔ -2 ^ 63 < a.toInt := by
  rw [Int64.lt_iff_toInt_lt]
  rfl

theorem toInt_eq_zero : a.toInt = 0 ↔ a = 0 := @Int64.toInt_inj a 0

theorem lt_zero : a < 0 ↔ a.toInt < 0 := Int64.lt_iff_toInt_lt

theorem zero_le : 0 ≤ a ↔ 0 ≤ a.toInt := Int64.le_iff_toInt_le

/-! ## The greatest common divisor -/

theorem absolute_eq_some :
    absolute a = some b ↔ -2 ^ 63 < a.toInt ∧ b.toInt = |a.toInt| := by
  rw [absolute, contract_eq_some, minValue_lt]
  refine and_congr_right fun above => ?_
  have body : (if a < 0 then minus 0 a else some a) = some b ↔ b.toInt = |a.toInt| := by
    split_ifs with below
    · rw [minus_eq_some, abs_of_neg (lt_zero.mp below)]
      exact iff_of_eq (congrArg _ (Int.zero_sub _))
    · rw [abs_of_nonneg (not_lt.mp (mt lt_zero.mpr below)), Int64.toInt_inj, Option.some_inj]
      exact eq_comm
  rw [body]
  refine and_iff_left_of_imp fun size => ?_
  rw [zero_le, size]
  exact abs_nonneg _

/-- The walk does what Euclid's turns do. -/
theorem euclid_walk {count : Nat} {pair : Pair} {left right : Nat}
    (isLeft : pair.left.toInt = left) (isRight : pair.right.toInt = right) :
    ∃ settled, walkWhileM (fun pair : Pair => decide (pair.right ≠ 0))
        (fun pair _ => (remainder pair.left pair.right).map fun rest => ⟨pair.right, rest⟩)
        (List.replicate count (0 : Int64)) pair = some settled ∧
      settled.left.toInt = (Library.Euclid.turns count (left, right)).1 ∧
      settled.right.toInt = (Library.Euclid.turns count (left, right)).2 := by
  induction count generalizing pair left right with
  | zero => exact ⟨pair, rfl, isLeft, isRight⟩
  | succ count ih =>
      have zero : pair.right = 0 ↔ right = 0 := by
        rw [← Int64.toInt_inj, isRight]
        exact Int.natCast_eq_zero
      rw [List.replicate_succ, walkWhileM, Library.Euclid.turns]
      by_cases settled : right = 0
      · rw [if_pos settled, if_neg (by simpa using zero.mpr settled)]
        exact ⟨pair, rfl, isLeft, isRight⟩
      · obtain ⟨rest, answer, value⟩ : ∃ rest, remainder pair.left pair.right = some rest ∧
            rest.toInt = (left % right : Nat) := by
          have mod : (left : Int).tmod right = (left % right : Nat) := Int.ofNat_tmod left right
          have below := Nat.mod_lt left (Nat.pos_of_ne_zero settled)
          have small := (fits_toInt pair.right).2
          have least : pair.left ≠ Int64.minValue := by
            intro least
            rw [least, show Int64.minValue.toInt = -2 ^ 63 from rfl] at isLeft
            omega
          rw [isRight] at small
          refine ⟨Int64.ofInt (left % right : Nat), ?_, ?_⟩
          · rw [remainder_eq_some, isLeft, isRight, mod]
            refine ⟨by exact_mod_cast settled, fun both => least both.1, ?_⟩
            exact Wasm.toInt_ofInt64 ⟨by omega, by omega⟩
          · exact Wasm.toInt_ofInt64 ⟨by omega, by omega⟩
        rw [if_neg settled, if_pos (by simpa using mt zero.mp settled), answer]
        exact ih isRight value

/-- So many turns settle every pair of `Int`s. -/
theorem fib_euclidSteps : 2 ^ 63 < Nat.fib (euclidSteps.toInt.toNat + 2) := by
  rw [show euclidSteps.toInt.toNat = 96 from rfl]
  norm_num

/-- The divisor is found for every two numbers that have a size. -/
theorem greatestCommonDivisor_settles (above : -2 ^ 63 < a.toInt) (above' : -2 ^ 63 < b.toInt) :
    ∃ divisor, greatestCommonDivisor a b = some divisor ∧
      divisor.toInt = Int.gcd a.toInt b.toInt := by
  have size (n : Int64) (above : -2 ^ 63 < n.toInt) :
      ∃ m, absolute n = some m ∧ m.toInt = n.toInt.natAbs := by
    have small := (fits_toInt n).2
    have value : (Int64.ofInt |n.toInt|).toInt = |n.toInt| :=
      Wasm.toInt_ofInt64 ⟨by rw [abs_eq_max_neg]; omega, by rw [abs_eq_max_neg]; omega⟩
    exact ⟨Int64.ofInt |n.toInt|, absolute_eq_some.mpr ⟨above, value⟩,
      value.trans (Int.abs_eq_natAbs _)⟩
  obtain ⟨left, left_eq, isLeft⟩ := size a above
  obtain ⟨right, right_eq, isRight⟩ := size b above'
  obtain ⟨settled, walked, first, -⟩ :=
    @euclid_walk euclidSteps.toInt.toNat ⟨left, right⟩ _ _ isLeft isRight
  have small : b.toInt.natAbs < Nat.fib (euclidSteps.toInt.toNat + 2) := by
    have below := (fits_toInt b).2
    have enough := fib_euclidSteps
    omega
  rw [Library.Euclid.turns_settled small] at first
  refine ⟨settled.left, ?_, first⟩
  rw [greatestCommonDivisor, contract_eq_some, minValue_lt, minValue_lt]
  refine ⟨⟨above, above'⟩, ?_, ?_⟩
  · rw [left_eq, right_eq]
    show (walkWhileM _ _ _ (⟨left, right⟩ : Pair)).bind _ = _
    rw [repeated, walked]
    rfl
  · rw [zero_le, first]
    exact Int.natCast_nonneg _

/-! ## Lowest terms -/

/-- Lowest terms with the sign on top. -/
structure Canonical (r : Ratio) : Prop where
  positive : 0 < r.bottom.toInt
  lowest : Int.gcd r.top.toInt r.bottom.toInt = 1

/-- The number that a ratio is. -/
def value (r : Ratio) : ℚ := r.top.toInt / r.bottom.toInt

variable {r left right result : Ratio}

/-- A canonical ratio is the numerator and the denominator of its number. -/
theorem Canonical.num_den (canonical : Canonical r) :
    r.top.toInt = r.value.num ∧ r.bottom.toInt = r.value.den := by
  have reduced := Rat.num_div_eq_of_coprime canonical.positive canonical.lowest
  have reduced' := Rat.den_div_eq_of_coprime canonical.positive canonical.lowest
  exact ⟨reduced.symm, reduced'.symm⟩

theorem simplified_spec (simplified_eq : simplified a b = some r) :
    Canonical r ∧ r.value = a.toInt / b.toInt := by
  rw [simplified, contract_eq_some, minValue_lt, minValue_lt] at simplified_eq
  obtain ⟨⟨above, above', nonzero⟩, body, -⟩ := simplified_eq
  have bottom : b.toInt ≠ 0 := mt toInt_eq_zero.mp nonzero
  split_ifs at body with none
  · cases body
    rw [none]
    refine ⟨⟨by decide, rfl⟩, ?_⟩
    rw [value]
    simp
  · have top : a.toInt ≠ 0 := mt toInt_eq_zero.mp none
    obtain ⟨divisor, found, isDivisor⟩ := greatestCommonDivisor_settles above above'
    simp only [found, Option.bind_eq_bind, Option.bind_some, Option.bind_eq_some_iff] at body
    obtain ⟨smallerTop, quot, smallerBottom, quot', body⟩ := body
    rw [quotient_eq_some, isDivisor] at quot quot'
    have isTop := Int.mul_tdiv_cancel' (Int.gcd_dvd_left a.toInt b.toInt)
    have isBottom := Int.mul_tdiv_cancel' (Int.gcd_dvd_right a.toInt b.toInt)
    rw [← quot.2] at isTop
    rw [← quot'.2] at isBottom
    have coprime : Int.gcd smallerTop.toInt smallerBottom.toInt = 1 := by
      have whole := Int.gcd_mul_left (Int.gcd a.toInt b.toInt) smallerTop.toInt smallerBottom.toInt
      rw [isTop, isBottom, Int.natAbs_natCast] at whole
      exact (Nat.eq_of_mul_eq_mul_left (Nat.pos_of_ne_zero (by exact_mod_cast quot.1))
        (whole.symm.trans (Nat.mul_one _).symm))
    have exactly : (smallerTop.toInt : ℚ) / smallerBottom.toInt = a.toInt / b.toInt := by
      have divisor_ne : ((Int.gcd a.toInt b.toInt : Int) : ℚ) ≠ 0 := by exact_mod_cast quot.1
      rw [← mul_div_mul_left _ _ divisor_ne, ← Int.cast_mul, ← Int.cast_mul, isTop, isBottom]
    have nonzero' : smallerBottom.toInt ≠ 0 := by
      intro zero
      rw [zero, Int.mul_zero] at isBottom
      exact bottom isBottom.symm
    split_ifs at body with below
    · rw [lt_zero] at below
      simp only [Option.bind_eq_some_iff, minus_eq_some] at body
      obtain ⟨turnedTop, turned, turnedBottom, turned', body⟩ := body
      cases body
      have turn : turnedTop.toInt = -smallerTop.toInt := turned.trans (Int.zero_sub _)
      have turn' : turnedBottom.toInt = -smallerBottom.toInt := turned'.trans (Int.zero_sub _)
      refine ⟨⟨?_, ?_⟩, ?_⟩
      · show 0 < turnedBottom.toInt
        omega
      · show Int.gcd turnedTop.toInt turnedBottom.toInt = 1
        rw [turn, turn', Int.gcd_neg, Int.neg_gcd, coprime]
      · show (turnedTop.toInt : ℚ) / turnedBottom.toInt = _
        rw [turn, turn', Int.cast_neg, Int.cast_neg, neg_div_neg_eq, exactly]
    · rw [lt_zero] at below
      cases body
      refine ⟨⟨?_, coprime⟩, exactly⟩
      show 0 < smallerBottom.toInt
      omega

/-! ## Operations -/

theorem whole_spec (n : Int64) : Canonical (whole n) ∧ (whole n).value = n.toInt := by
  have one : (whole n).bottom.toInt = 1 := rfl
  refine ⟨⟨?_, ?_⟩, ?_⟩
  · rw [one]
    exact Int.one_pos
  · rw [one, Int.gcd_one_right]
  · rw [value]
    show (n.toInt : ℚ) / ((1 : Int) : ℚ) = n.toInt
    rw [Int.cast_one, div_one]

theorem zero_spec : Canonical zero ∧ zero.value = 0 := by
  have whole := whole_spec 0
  rwa [show ((0 : Int64).toInt : ℚ) = 0 from rfl] at whole

theorem ratio_spec (ran : ratio a b = some (.ok r)) :
    Canonical r ∧ b.toInt ≠ 0 ∧ r.value = a.toInt / b.toInt := by
  rw [ratio] at ran
  split_ifs at ran with none least least'
  · cases ran
  · cases ran
  · cases ran
  · rw [Option.map_eq_some_iff] at ran
    obtain ⟨result, simplified_eq, same⟩ := ran
    cases same
    have spec := simplified_spec simplified_eq
    exact ⟨spec.1, mt toInt_eq_zero.mp none, spec.2⟩

theorem negated_spec (canonical : Canonical r) (ran : negated r = some result) :
    Canonical result ∧ result.value = -r.value := by
  rw [negated, Option.map_eq_some_iff] at ran
  obtain ⟨top, turned, rfl⟩ := ran
  rw [minus_eq_some] at turned
  have turn : top.toInt = -r.top.toInt := turned.trans (Int.zero_sub _)
  refine ⟨⟨canonical.positive, ?_⟩, ?_⟩
  · show Int.gcd top.toInt r.bottom.toInt = 1
    rw [turn, Int.neg_gcd, canonical.lowest]
  · show (top.toInt : ℚ) / r.bottom.toInt = -r.value
    rw [turn, Int.cast_neg, neg_div, value]

theorem Canonical.bottom_ne (canonical : Canonical r) : (r.bottom.toInt : ℚ) ≠ 0 := by
  exact_mod_cast canonical.positive.ne'

theorem added_spec (canonical : Canonical left) (canonical' : Canonical right)
    (ran : added left right = some result) :
    Canonical result ∧ result.value = left.value + right.value := by
  simp only [added, Option.bind_eq_bind, Option.bind_eq_some_iff, times_eq_some,
    plus_eq_some] at ran
  obtain ⟨first, first_eq, second, second_eq, top, top_eq, bottom, bottom_eq, ran⟩ := ran
  have spec := simplified_spec ran
  refine ⟨spec.1, ?_⟩
  rw [spec.2, top_eq, first_eq, second_eq, bottom_eq, value, value,
    div_add_div _ _ canonical.bottom_ne canonical'.bottom_ne]
  push_cast
  rw [mul_comm (right.top.toInt : ℚ)]

theorem subtracted_spec (canonical : Canonical left) (canonical' : Canonical right)
    (ran : subtracted left right = some result) :
    Canonical result ∧ result.value = left.value - right.value := by
  simp only [subtracted, Option.bind_eq_bind, Option.bind_eq_some_iff] at ran
  obtain ⟨turned, negated_eq, ran⟩ := ran
  have turn := negated_spec canonical' negated_eq
  have spec := added_spec canonical turn.1 ran
  rw [turn.2, ← sub_eq_add_neg] at spec
  exact spec

theorem multiplied_spec (ran : multiplied left right = some result) :
    Canonical result ∧ result.value = left.value * right.value := by
  simp only [multiplied, Option.bind_eq_bind, Option.bind_eq_some_iff, times_eq_some] at ran
  obtain ⟨top, top_eq, bottom, bottom_eq, ran⟩ := ran
  have spec := simplified_spec ran
  refine ⟨spec.1, ?_⟩
  rw [spec.2, top_eq, bottom_eq, value, value, div_mul_div_comm]
  push_cast
  rfl

theorem divided_spec (ran : divided left right = some (.ok result)) :
    Canonical result ∧ right.top.toInt ≠ 0 ∧ result.value = left.value / right.value := by
  rw [divided] at ran
  split_ifs at ran with none
  · cases ran
  · simp only [Option.bind_eq_bind, Option.bind_eq_some_iff, times_eq_some] at ran
    obtain ⟨top, top_eq, bottom, bottom_eq, quotient, ran, same⟩ := ran
    cases same
    have spec := simplified_spec ran
    refine ⟨spec.1, mt toInt_eq_zero.mp none, ?_⟩
    rw [spec.2, top_eq, bottom_eq, value, value, div_div_div_eq]
    push_cast
    rfl

theorem isBelow_spec {answer : Bool} (canonical : Canonical left) (canonical' : Canonical right)
    (ran : isBelow left right = some answer) :
    answer = decide (left.value < right.value) := by
  simp only [isBelow, Option.bind_eq_bind, Option.bind_eq_some_iff, times_eq_some] at ran
  obtain ⟨one, one_eq, other, other_eq, same⟩ := ran
  cases same
  rw [decide_eq_decide, Int64.lt_iff_toInt_lt, one_eq, other_eq, value, value,
    div_lt_div_iff₀ (by exact_mod_cast canonical.positive) (by exact_mod_cast canonical'.positive)]
  exact_mod_cast Iff.rfl

end Ratio

end Deed.Stdlib
