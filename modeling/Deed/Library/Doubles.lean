import Mathlib

/-!
# Binary floating-point numbers of 64 bits

The values of the format, the nearest one to a rational number with ties to even, and that
integers of no more than 53 bits are their own nearest values.
-/

namespace Deed.Library

/-- A magnitude of 53 bits at an exponent in range. -/
def Representable (magnitude : ℚ) : Prop :=
  ∃ (bits : ℕ) (exponent : ℤ), bits < 2 ^ 53 ∧ -1074 ≤ exponent ∧ exponent ≤ 971 ∧
    magnitude = bits * (2 : ℚ) ^ exponent

/-- A floating-point number. -/
inductive Double where
  | nan
  | infinite (negative : Bool)
  | finite (negative : Bool) (magnitude : {magnitude : ℚ // Representable magnitude})

namespace Double

/-- The value of a finite number. -/
def rational (negative : Bool) (magnitude : ℚ) : ℚ := if negative then -magnitude else magnitude

/-- Whether two numbers compare as equal: the two zeros do, and nothing does with what is not a
number. -/
def equal : Double → Double → Bool
  | .infinite negative, .infinite negative' => negative == negative'
  | .finite negative magnitude, .finite negative' magnitude' =>
      rational negative magnitude == rational negative' magnitude'
  | _, _ => false

/-- Whether a number is finite and has no fractional part. -/
def whole : Double → Bool
  | .finite _ magnitude => magnitude.1.den == 1
  | _ => false

/-- The 64-bit integer that a number is cut to. -/
def toInt64 : Double → Int64
  | .nan => 0
  | .infinite negative => if negative then Int64.minValue else Int64.maxValue
  | .finite negative magnitude =>
      let cut : ℤ := if negative then -⌊magnitude.1⌋ else ⌊magnitude.1⌋
      Int64.ofInt (max (-2 ^ 63) (min cut (2 ^ 63 - 1)))

/-- The number is this integer. -/
def IsInt (double : Double) (n : ℤ) : Prop :=
  ∃ negative magnitude, double = .finite negative magnitude ∧ rational negative magnitude = n

end Double

/-- The nearest natural number, of two the even one. -/
def roundEven (q : ℚ) : ℕ :=
  let below := ⌊q⌋₊
  if q - below < 1 / 2 then below
  else if 1 / 2 < q - below then below + 1
  else if below % 2 = 0 then below
  else below + 1

theorem roundEven_natCast (n : ℕ) : roundEven n = n := by
  unfold roundEven
  rw [Nat.floor_natCast]
  exact if_pos (by norm_num)

theorem le_roundEven {q : ℚ} {n : ℕ} (above : (n : ℚ) ≤ q) : n ≤ roundEven q := by
  have below : n ≤ ⌊q⌋₊ := Nat.le_floor above
  unfold roundEven
  simp only
  split
  · exact below
  · split
    · exact below.trans (Nat.le_succ _)
    · split
      · exact below
      · exact below.trans (Nat.le_succ _)

theorem roundEven_le {q : ℚ} {n : ℕ} (positive : 0 ≤ q) (below : q < n) : roundEven q ≤ n := by
  have floor : ⌊q⌋₊ < n := (Nat.floor_lt positive).mpr below
  unfold roundEven
  simp only
  split
  · exact floor.le
  · split
    · exact floor
    · split
      · exact floor.le
      · exact floor

/-- The exponent at which a magnitude has 53 bits, or the least one. -/
def exponentOf (q : ℚ) : ℤ := max (-1074) (Int.log 2 q - 52)

/-- The magnitude with 53 bits that is nearest. -/
def rounded (q : ℚ) : ℚ := roundEven (q / (2 : ℚ) ^ exponentOf q) * (2 : ℚ) ^ exponentOf q

theorem two_zpow_pos (e : ℤ) : (0 : ℚ) < (2 : ℚ) ^ e := zpow_pos (by norm_num) e

/-- What is rounded is representable where it is not too large. -/
theorem representable_rounded {q : ℚ} (positive : 0 < q) (small : rounded q < 2 ^ (1024 : ℤ)) :
    Representable (rounded q) := by
  have low : (2 : ℚ) ^ Int.log 2 q ≤ q := by
    exact_mod_cast Int.zpow_log_le_self (b := 2) (by decide) positive
  have high : q < (2 : ℚ) ^ (Int.log 2 q + 1) := by
    exact_mod_cast Int.lt_zpow_succ_log_self (b := 2) (by decide) q
  have bits : roundEven (q / (2 : ℚ) ^ exponentOf q) ≤ 2 ^ 53 := by
    refine roundEven_le (div_nonneg positive.le (two_zpow_pos _).le) ?_
    rw [div_lt_iff₀ (two_zpow_pos _)]
    have exponents : (2 : ℚ) ^ (Int.log 2 q + 1) ≤ (2 : ℚ) ^ (53 + exponentOf q) :=
      zpow_le_zpow_right₀ (by norm_num) (by unfold exponentOf; omega)
    refine high.trans_le (exponents.trans_eq ?_)
    rw [zpow_add₀ (by norm_num)]
    norm_num
  have least : -1074 ≤ exponentOf q := le_max_left _ _
  have full (late : -1074 < exponentOf q) : 2 ^ 52 ≤ roundEven (q / (2 : ℚ) ^ exponentOf q) := by
    apply le_roundEven
    rw [le_div_iff₀ (two_zpow_pos _)]
    have same : (52 : ℤ) + exponentOf q = Int.log 2 q := by
      unfold exponentOf at late ⊢
      omega
    have whole : (2 : ℚ) ^ (52 + exponentOf q) ≤ q := by rw [same]; exact low
    rw [zpow_add₀ (by norm_num)] at whole
    exact_mod_cast whole
  have bounded : exponentOf q ≤ 971 := by
    by_contra late
    have bits' := full (by omega)
    have large : (2 : ℚ) ^ (1024 : ℤ) ≤ rounded q := by
      have exponents : (2 : ℚ) ^ (972 : ℤ) ≤ (2 : ℚ) ^ exponentOf q :=
        zpow_le_zpow_right₀ (by norm_num) (by omega)
      calc (2 : ℚ) ^ (1024 : ℤ) = (2 ^ 52 : ℕ) * (2 : ℚ) ^ (972 : ℤ) := by
            rw [show (1024 : ℤ) = 52 + 972 by norm_num, zpow_add₀ (by norm_num)]
            norm_num
        _ ≤ rounded q := mul_le_mul (by exact_mod_cast bits') exponents (two_zpow_pos _).le
          (Nat.cast_nonneg _)
    exact absurd small (not_lt.mpr large)
  rcases Nat.lt_or_eq_of_le bits with less | same
  · exact ⟨_, exponentOf q, less, least, bounded, rfl⟩
  · refine ⟨2 ^ 52, exponentOf q + 1, by decide, by omega, ?_, ?_⟩
    · by_contra late
      have last : exponentOf q = 971 := by omega
      have largest : rounded q = (2 : ℚ) ^ (1024 : ℤ) := by
        rw [rounded, same, last, show (1024 : ℤ) = 53 + 971 by norm_num, zpow_add₀ (by norm_num)]
        norm_num
      exact absurd small (not_lt.mpr largest.ge)
    · rw [rounded, same, zpow_add₀ (by norm_num)]
      push_cast
      ring

/-- The number nearest to a magnitude with a sign. -/
def nearest (negative : Bool) (q : ℚ) : Double :=
  if positive : 0 < q then
    if small : rounded q < 2 ^ (1024 : ℤ) then
      .finite negative ⟨rounded q, representable_rounded positive small⟩
    else .infinite negative
  else .finite negative ⟨0, 0, 0, by decide, by decide, by decide, by norm_num⟩

/-- A natural number of no more than 53 bits is its own nearest. -/
theorem rounded_natCast {n : ℕ} (positive : 0 < n) (small : n ≤ 2 ^ 53) :
    rounded (n : ℚ) = n := by
  have log : Int.log 2 (n : ℚ) = Nat.log 2 n := Int.log_natCast 2 n
  have least : -1074 ≤ (Nat.log 2 n : ℤ) - 52 := by omega
  have exponent : exponentOf (n : ℚ) = Nat.log 2 n - 52 := by
    rw [exponentOf, log, max_eq_right least]
  have natural : ∃ k : ℕ, (n : ℚ) / (2 : ℚ) ^ exponentOf (n : ℚ) = k := by
    rcases Nat.lt_or_eq_of_le small with less | rfl
    · have digits : Nat.log 2 n < 53 := Nat.log_lt_of_lt_pow positive.ne' less
      refine ⟨n * 2 ^ (52 - Nat.log 2 n), ?_⟩
      rw [div_eq_mul_inv, ← zpow_neg, exponent]
      have same : -((Nat.log 2 n : ℤ) - 52) = ((52 - Nat.log 2 n : ℕ) : ℤ) := by omega
      rw [same, zpow_natCast]
      push_cast
      rfl
    · refine ⟨2 ^ 52, ?_⟩
      rw [exponent, Nat.log_pow (by decide)]
      norm_num
  obtain ⟨k, same⟩ := natural
  rw [rounded, same, roundEven_natCast, ← same, div_mul_cancel₀ _ (two_zpow_pos _).ne']

/-- An integer of no more than 53 bits is its own nearest. -/
theorem nearest_isInt {n : ℕ} (small : n ≤ 2 ^ 53) (negative : Bool) :
    (nearest negative n).IsInt (if negative then -n else n) := by
  unfold nearest
  rcases Nat.eq_zero_or_pos n with rfl | positive
  · rw [dif_neg (by norm_num)]
    refine ⟨negative, _, rfl, ?_⟩
    cases negative <;> simp [Double.rational]
  · have whole := rounded_natCast positive small
    have fits : rounded (n : ℚ) < 2 ^ (1024 : ℤ) := by
      rw [whole]
      have bits : (n : ℚ) ≤ 2 ^ 53 := by exact_mod_cast small
      have large : (2 : ℚ) ^ (53 : ℤ) < 2 ^ (1024 : ℤ) :=
        zpow_lt_zpow_right₀ (by norm_num) (by norm_num)
      exact bits.trans_lt (by exact_mod_cast large)
    rw [dif_pos (by exact_mod_cast positive), dif_pos fits]
    refine ⟨negative, _, rfl, ?_⟩
    simp only [Double.rational, whole]
    cases negative <;> simp

namespace Double

variable {double other : Double} {n : ℤ}

theorem IsInt.equal (is_ : double.IsInt n) (is_' : other.IsInt n) : double.equal other = true := by
  obtain ⟨negative, magnitude, rfl, same⟩ := is_
  obtain ⟨negative', magnitude', rfl, same'⟩ := is_'
  rw [Double.equal, same, same', beq_self_eq_true]

theorem rational_of_isInt {negative : Bool} {magnitude : ℚ} (same : rational negative magnitude = n) :
    magnitude = if negative then ((-n : ℤ) : ℚ) else n := by
  cases negative with
  | false => exact same
  | true =>
      have flipped := congrArg Neg.neg same
      rw [rational, if_pos rfl, neg_neg] at flipped
      rw [flipped, if_pos rfl, Int.cast_neg]

theorem IsInt.whole (is_ : double.IsInt n) : double.whole = true := by
  obtain ⟨negative, magnitude, rfl, same⟩ := is_
  rw [Double.whole, rational_of_isInt same]
  cases negative <;> simp

/-- A number of 64 bits is cut to the integer it is. -/
theorem IsInt.toInt64 (is_ : double.IsInt n) (least : -2 ^ 63 ≤ n) (largest : n < 2 ^ 63) :
    double.toInt64 = Int64.ofInt n := by
  obtain ⟨negative, magnitude, rfl, same⟩ := is_
  have floor : (if negative then -⌊magnitude.1⌋ else ⌊magnitude.1⌋) = n := by
    rw [rational_of_isInt same]
    cases negative with
    | false => exact Int.floor_intCast n
    | true =>
        rw [if_pos rfl, if_pos rfl, Int.floor_intCast, neg_neg]
  rw [Double.toInt64]
  simp only [floor]
  congr 1
  omega

end Double

end Deed.Library
