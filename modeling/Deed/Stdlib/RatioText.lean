import Deed.Stdlib.RatioSound

/-!
# Ratios written out

The text of a ratio is the decimal expansion of its rounded value with as many places as were
asked for.
-/

namespace Deed.Stdlib.Ratio

open Deed.Library (halfAway)

/-- A decimal expansion: so many units of the last place, written with a sign where they are
below zero, no zero in front that could be left out, and exactly so many places. -/
structure Expansion (text : String) (units : Int) (places : Nat) (whole fraction : List Char) :
    Prop where
  shown : text.toList = (if units < 0 then ['-'] else []) ++ whole ++
    (if places = 0 then [] else '.' :: fraction)
  digits : ∀ c ∈ whole ++ fraction, c.isDigit
  exact_places : fraction.length = places
  number : Nat.ofDigitChars 10 (whole ++ fraction) 0 = units.natAbs
  leading : whole = ['0'] ∨ ∃ first rest, whole = first :: rest ∧ first ≠ '0'

variable {value : Ratio} {factor units scale digits : Int64}

/-! ## Rounding -/

theorem scaled_spec (canonical : Canonical value) (ran : scaled value factor = some units) :
    units.toInt = halfAway (value.value * factor.toInt) := by
  simp only [scaled, Option.bind_eq_bind, Option.bind_eq_some_iff, times_eq_some] at ran
  obtain ⟨first, first_eq, doubled, doubled_eq, divisor, divisor_eq, ran⟩ := ran
  have two : (2 : Int64).toInt = 2 := rfl
  rw [two] at doubled_eq divisor_eq
  have rounded := @Library.tdiv_halfAway first.toInt _ canonical.positive
  have exactly : (first.toInt : ℚ) / value.bottom.toInt = value.value * factor.toInt := by
    rw [first_eq, Ratio.value]
    push_cast
    ring
  rw [exactly, ← doubled_eq, ← divisor_eq] at rounded
  rw [← rounded]
  split_ifs at ran with below
  · rw [lt_zero] at below
    simp only [Option.bind_eq_some_iff, minus_eq_some, quotient_eq_some] at ran
    obtain ⟨moved, moved_eq, -, ran⟩ := ran
    rw [if_pos below, ran, moved_eq]
  · rw [lt_zero] at below
    simp only [Option.bind_eq_some_iff, plus_eq_some, quotient_eq_some] at ran
    obtain ⟨moved, moved_eq, -, ran⟩ := ran
    rw [if_neg below, ran, moved_eq]

theorem power_walk {count : Nat} {start result : Int64}
    (ran : (List.replicate count (0 : Int64)).foldlM (fun total _ => times total 10) start =
      some result) : result.toInt = start.toInt * 10 ^ count := by
  induction count generalizing start with
  | zero =>
      cases ran
      rw [pow_zero, mul_one]
  | succ count ih =>
      rw [List.replicate_succ, List.foldlM_cons, Option.bind_eq_bind,
        Option.bind_eq_some_iff] at ran
      obtain ⟨total, total_eq, ran⟩ := ran
      rw [times_eq_some, show (10 : Int64).toInt = 10 from rfl] at total_eq
      rw [ih ran, total_eq, pow_succ']
      ring

theorem powerOfTen_spec (ran : powerOfTen digits = some scale) :
    scale.toInt = 10 ^ digits.toInt.toNat := by
  have power := power_walk ran
  rwa [show (1 : Int64).toInt = 1 from rfl, one_mul] at power

/-! ## Characters -/

theorem toList_joined (parts : List String) :
    (String.intercalate "" parts).toList = (parts.map String.toList).flatten := by
  induction parts with
  | nil => rfl
  | cons part parts ih =>
      cases parts with
      | nil => simp
      | cons other parts =>
          rw [String.intercalate_cons_cons, String.toList_append, ih, String.append_empty]
          rfl

/-- Only nought is written with a nought in front. -/
theorem toDigits_leading (number : Nat) : Nat.toDigits 10 number = ['0'] ∨
    ∃ first rest, Nat.toDigits 10 number = first :: rest ∧ first ≠ '0' := by
  induction number using Nat.strong_induction_on with
  | _ number ih =>
      by_cases single : number < 10
      · rw [Nat.toDigits_of_lt_base single]
        have each : ∀ digit < 10, [Nat.digitChar digit] = ['0'] ∨ Nat.digitChar digit ≠ '0' := by
          decide
        exact (each number single).imp_right fun other => ⟨_, _, rfl, other⟩
      · rw [Nat.toDigits_of_base_le (by decide) (not_lt.mp single)]
        rcases ih (number / 10) (by omega) with zero | ⟨first, rest, same, other⟩
        · have back := @Nat.ofDigitChars_ten_toDigits (number / 10)
          rw [zero] at back
          have none : number / 10 = 0 := back.symm
          omega
        · rw [same]
          exact .inr ⟨first, rest ++ _, rfl, other⟩

theorem zeroPadded_spec {shown padded : String} {width : Int64} (short : shown.length < 2 ^ 63)
    (ran : zeroPadded shown width = some padded) :
    padded.toList =
      List.replicate (width.toInt.toNat - shown.length) '0' ++ shown.toList := by
  simp only [zeroPadded, Option.bind_eq_bind, Option.bind_eq_some_iff, minus_eq_some] at ran
  obtain ⟨missing, missing_eq, ran⟩ := ran
  rw [Int64.toInt_ofNat_of_lt short] at missing_eq
  split_ifs at ran with none
  · have same : shown = padded := Option.some.inj ran
    rw [Int64.le_iff_toInt_le, missing_eq, show (0 : Int64).toInt = 0 from rfl] at none
    have zero : width.toInt.toNat - shown.length = 0 := by omega
    rw [zero, ← same]
    rfl
  · cases ran
    rw [Int64.le_iff_toInt_le, missing_eq] at none
    have zeros : (String.intercalate "" (repeated "0" missing)).toList =
        List.replicate missing.toInt.toNat '0' := by
      rw [toList_joined, repeated, List.map_replicate]
      exact List.flatten_replicate_singleton
    have count : missing.toInt.toNat = width.toInt.toNat - shown.length := by omega
    rw [toList_joined, ← count, ← zeros]
    simp

/-- The characters of a number that is not below nought. -/
theorem toList_toString {a : Int64} {number : Nat} (isNumber : a.toInt = number) :
    (toString a.toInt).toList = Nat.toDigits 10 number := by
  rw [isNumber]
  exact Nat.toList_repr

/-- The last places of a number, with the noughts in front. -/
theorem padded_places {rest places : Nat} (small : rest < 10 ^ places) (some_ : places ≠ 0) :
    (Nat.toDigits 10 rest).length ≤ places ∧
      (List.replicate (places - (Nat.toDigits 10 rest).length) '0' ++
        Nat.toDigits 10 rest).length = places := by
  have fits := (Nat.length_toDigits_le_iff (by decide) (Nat.pos_of_ne_zero some_)).mpr small
  refine ⟨fits, ?_⟩
  rw [List.length_append, List.length_replicate]
  omega

theorem isDigit_toDigits {number : Nat} : ∀ c ∈ Nat.toDigits 10 number, c.isDigit :=
  fun _ mem => Nat.isDigit_of_mem_toDigits (by decide) (by decide) mem

/-- What `text` shows is the expansion of the rounded value. -/
theorem text_spec {shown : String} (canonical : Canonical value)
    (ran : text value digits = some shown) :
    ∃ whole fraction, Expansion shown (halfAway (value.value * 10 ^ digits.toInt.toNat))
      digits.toInt.toNat whole fraction := by
  rw [text] at ran
  set places : Int64 := if digits < 0 then 0 else digits with places_eq
  have same : places.toInt.toNat = digits.toInt.toNat := by
    rw [places_eq]
    split_ifs with below
    · rw [lt_zero] at below
      show 0 = _
      omega
    · rfl
  have nonneg : 0 ≤ places.toInt := by
    rw [places_eq]
    split_ifs with below
    · exact Int.le_refl 0
    · exact not_lt.mp (mt lt_zero.mpr below)
  simp only [Option.bind_eq_bind, Option.bind_eq_some_iff, absolute_eq_some, quotient_eq_some,
    remainder_eq_some] at ran
  obtain ⟨scale, power, units, rounded, size, ⟨-, size_eq⟩, wholePart, ⟨-, whole_eq⟩, rest,
    ⟨-, -, rest_eq⟩, ran⟩ := ran
  have scale_eq := powerOfTen_spec power
  have units_eq := scaled_spec canonical rounded
  rw [scale_eq, same] at units_eq whole_eq rest_eq
  rw [Int.cast_pow, Int.cast_ofNat] at units_eq
  rw [size_eq, Int.abs_eq_natAbs] at whole_eq rest_eq
  have whole_eq' : wholePart.toInt = (units.toInt.natAbs / 10 ^ digits.toInt.toNat : Nat) := by
    rw [whole_eq, Int.ofNat_tdiv, Nat.cast_pow, Nat.cast_ofNat]
  have rest_eq' : rest.toInt = (units.toInt.natAbs % 10 ^ digits.toInt.toNat : Nat) := by
    rw [rest_eq, Int.ofNat_tmod, Nat.cast_pow, Nat.cast_ofNat]
  have sign : (if units < 0 then "-" else "" : String).toList =
      if units.toInt < 0 then ['-'] else [] := by
    rw [apply_ite String.toList]
    exact if_congr lt_zero rfl rfl
  rw [← units_eq]
  by_cases none : digits.toInt.toNat = 0
  · have none' : places = 0 := by
      rw [← toInt_eq_zero]
      omega
    rw [if_pos none', Option.pure_def, Option.some_inj] at ran
    rw [none, pow_zero, Nat.div_one] at whole_eq'
    refine ⟨Nat.toDigits 10 units.toInt.natAbs, [], ?_⟩
    constructor
    · rw [← ran, toList_joined, if_pos none]
      simp only [List.map_cons, List.map_nil, List.flatten_cons, List.flatten_nil, sign,
        toList_toString whole_eq', List.append_nil]
    · intro c mem
      rw [List.append_nil] at mem
      exact isDigit_toDigits c mem
    · exact none.symm
    · rw [List.append_nil, Nat.ofDigitChars_ten_toDigits]
    · exact toDigits_leading _
  · have some_ : places ≠ 0 := by
      rw [Ne, ← toInt_eq_zero]
      omega
    rw [if_neg some_, Option.bind_eq_some_iff] at ran
    obtain ⟨padded, padded_eq, ran⟩ := ran
    rw [Option.pure_def, Option.some_inj] at ran
    have small : units.toInt.natAbs % 10 ^ digits.toInt.toNat < 10 ^ digits.toInt.toNat :=
      Nat.mod_lt _ (by positivity)
    obtain ⟨fits, exactly⟩ := padded_places small none
    have characters := toList_toString rest_eq'
    have length : (toString rest.toInt).length =
        (Nat.toDigits 10 (units.toInt.natAbs % 10 ^ digits.toInt.toNat)).length := by
      rw [← String.length_toList, characters]
    have short : (toString rest.toInt).length < 2 ^ 63 := by
      have below := (fits_toInt digits).2
      omega
    have padding := zeroPadded_spec short padded_eq
    rw [same, length, characters] at padding
    have digits_padded : ∀ c ∈ padded.toList, c.isDigit := by
      intro c mem
      rw [padding, List.mem_append] at mem
      rcases mem with mem | mem
      · rw [(List.mem_replicate.mp mem).2]
        rfl
      · exact isDigit_toDigits c mem
    have number_padded : Nat.ofDigitChars 10 padded.toList 0 =
        units.toInt.natAbs % 10 ^ digits.toInt.toNat := by
      rw [padding, Nat.ofDigitChars_append, Nat.ofDigitChars_replicate_zero, Nat.mul_zero,
        Nat.ofDigitChars_ten_toDigits]
    rw [← padding] at exactly
    refine ⟨Nat.toDigits 10 (units.toInt.natAbs / 10 ^ digits.toInt.toNat), padded.toList, ?_⟩
    constructor
    · rw [← ran, toList_joined, if_neg none]
      simp only [List.map_cons, List.map_nil, List.flatten_cons, List.flatten_nil, sign,
        toList_toString whole_eq', List.append_nil, List.append_assoc]
      rfl
    · intro c mem
      rcases List.mem_append.mp mem with mem | mem
      · exact isDigit_toDigits c mem
      · exact digits_padded c mem
    · exact exactly
    · rw [Nat.ofDigitChars_append, Nat.ofDigitChars_ten_toDigits,
        Nat.ofDigitChars_eq_ofDigitChars_zero, number_padded, exactly]
      exact Nat.div_add_mod _ _
    · exact toDigits_leading _

/-! ## Whole runs -/

/-- A ratio that was built by operations of the module, none of which stopped, with the number
that the same operations have in exact arithmetic. -/
inductive Built : Ratio → ℚ → Prop
  | ratio {top bottom : Int64} {r : Ratio} (ran : Ratio.ratio top bottom = some (.ok r)) :
      Built r (top.toInt / bottom.toInt)
  | whole (n : Int64) : Built (whole n) n.toInt
  | zero : Built zero 0
  | negated {r result : Ratio} {q : ℚ} (built : Built r q) (ran : negated r = some result) :
      Built result (-q)
  | added {left right result : Ratio} {p q : ℚ} (first : Built left p) (second : Built right q)
      (ran : added left right = some result) : Built result (p + q)
  | subtracted {left right result : Ratio} {p q : ℚ} (first : Built left p)
      (second : Built right q) (ran : subtracted left right = some result) : Built result (p - q)
  | multiplied {left right result : Ratio} {p q : ℚ} (first : Built left p)
      (second : Built right q) (ran : multiplied left right = some result) : Built result (p * q)
  | divided {left right result : Ratio} {p q : ℚ} (first : Built left p) (second : Built right q)
      (ran : divided left right = some (.ok result)) : Built result (p / q)

/-- What was built is the exact number in lowest terms. -/
theorem Built.exact {r : Ratio} {q : ℚ} (built : Built r q) : Canonical r ∧ r.value = q := by
  induction built with
  | ratio ran => exact ⟨(ratio_spec ran).1, (ratio_spec ran).2.2⟩
  | whole n => exact whole_spec n
  | zero => exact zero_spec
  | negated built ran ih =>
      obtain ⟨canonical, rfl⟩ := ih
      exact negated_spec canonical ran
  | added first second ran ih ih' =>
      obtain ⟨canonical, rfl⟩ := ih
      obtain ⟨canonical', rfl⟩ := ih'
      exact added_spec canonical canonical' ran
  | subtracted first second ran ih ih' =>
      obtain ⟨canonical, rfl⟩ := ih
      obtain ⟨canonical', rfl⟩ := ih'
      exact subtracted_spec canonical canonical' ran
  | multiplied first second ran ih ih' =>
      obtain ⟨-, rfl⟩ := ih
      obtain ⟨-, rfl⟩ := ih'
      exact multiplied_spec ran
  | divided first second ran ih ih' =>
      obtain ⟨-, rfl⟩ := ih
      obtain ⟨-, rfl⟩ := ih'
      exact ⟨(divided_spec ran).1, (divided_spec ran).2.2⟩

/-- Canonical ratios are equal where their numbers are. -/
theorem Canonical.eq_iff {left right : Ratio} (canonical : Canonical left)
    (canonical' : Canonical right) : left = right ↔ left.value = right.value := by
  constructor
  · rintro rfl
    rfl
  · intro same
    have top : left.top = right.top := by
      rw [← Int64.toInt_inj, canonical.num_den.1, canonical'.num_den.1, same]
    have bottom : left.bottom = right.bottom := by
      rw [← Int64.toInt_inj, canonical.num_den.2, canonical'.num_den.2, same]
    cases left
    cases right
    cases top
    cases bottom
    rfl

/-- Ratios are exact.  The divisor of every two numbers that have a size is found within the
fixed number of turns.  What operations that do not stop build is the exact number in lowest
terms, so equality and `isBelow` are those of the numbers, and the text is the decimal
expansion of the number rounded half away from nought, with exactly the places asked for. -/
theorem ratios_exact :
    (∀ a b : Int64, Int64.minValue < a → Int64.minValue < b →
      ∃ divisor, greatestCommonDivisor a b = some divisor ∧
        divisor.toInt = Int.gcd a.toInt b.toInt) ∧
      (∀ r q, Built r q → (r.top.toInt = q.num ∧ r.bottom.toInt = q.den) ∧
        ∀ digits shown, text r digits = some shown →
          ∃ whole fraction, Expansion shown (halfAway (q * 10 ^ digits.toInt.toNat))
            digits.toInt.toNat whole fraction) ∧
      ∀ left right p q, Built left p → Built right q → (left = right ↔ p = q) ∧
        ∀ answer, isBelow left right = some answer → answer = decide (p < q) := by
  refine ⟨?_, ?_, ?_⟩
  · intro a b above above'
    exact greatestCommonDivisor_settles (minValue_lt.mp above) (minValue_lt.mp above')
  · intro r q built
    obtain ⟨canonical, rfl⟩ := built.exact
    exact ⟨canonical.num_den, fun digits shown ran => text_spec canonical ran⟩
  · intro left right p q built built'
    obtain ⟨canonical, rfl⟩ := built.exact
    obtain ⟨canonical', rfl⟩ := built'.exact
    exact ⟨canonical.eq_iff canonical', fun answer ran => isBelow_spec canonical canonical' ran⟩


example : (simplified (-2) 4).bind (text · 0) = some "-1" := by decide

end Deed.Stdlib.Ratio
