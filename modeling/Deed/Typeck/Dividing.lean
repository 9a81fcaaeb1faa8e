import Deed.Typeck.NarrowingSound

/-!
# Dividing a range

`divided` with every operator that can panic written out, and what it answers: the values whose
product with the count lies in the range, all of them and no others.
-/

namespace Deed.Typeck

open Deed.Library

/-! ## What the machine runs -/

/-- `%`, which panics on nought and on the one quotient that is no word. -/
def remainder (value by_ : Int64) : Option Int64 :=
  if by_ = 0 ∨ (value = Int64.minValue ∧ by_ = -1) then none
  else some (Int64.ofInt (value.toInt.tmod by_.toInt))

/-- `round_down`; no answer at all is a panic. -/
def roundDownRun (value by_ : Int64) : Option (Option Int64) :=
  if value = Int64.minValue ∧ by_ = -1 then some (some Int64.maxValue)
  else
    match checkedDiv value by_ with
    | none => some none
    | some quotient => do
        let rest ← remainder value by_
        if rest = 0 ∨ (value < 0 ↔ by_ < 0) then some (some quotient)
        else some (checked (quotient.toInt - 1))

/-- `round_up`; no answer at all is a panic. -/
def roundUpRun (value by_ : Int64) : Option (Option Int64) :=
  match checkedDiv value by_ with
  | none => some none
  | some quotient => do
      let rest ← remainder value by_
      if rest = 0 ∨ ¬ (value < 0 ↔ by_ < 0) then some (some quotient)
      else some (checked (quotient.toInt + 1))

/-- Both ends of a range; where the first is none the second is not asked for. -/
def endsRun (least most : Option (Option Int64)) : Option (Option Range) := do
  match ← least with
  | none => some none
  | some low =>
      match ← most with
      | none => some none
      | some high => some (some (.between low high))

/-- `divided`; no answer at all is a panic. -/
def dividedRun (bound : Range) (count : Int64) : Option (Option Range) :=
  if count = 0 then some none
  else
    match bound.bounds with
    | none => some (some .empty)
    | some (low, high) =>
        if count > 0 then endsRun (roundUpRun low count) (roundDownRun high count)
        else endsRun (roundUpRun high count) (roundDownRun low count)

variable {value by_ quotient : Int64}

/-! ## No panic -/

/-- What is left over is no further from nought than what was divided. -/
theorem inI64_tmod (value by_ : Int64) : InI64 (value.toInt.tmod by_.toInt) := by
  have whole := inI64_toInt value
  rw [inI64_iff] at whole ⊢
  rcases Int.le_total 0 value.toInt with positive | negative
  · have least := Int.tmod_nonneg by_.toInt positive
    have size := Int.natAbs_tmod value.toInt by_.toInt
    have most := Nat.mod_le value.toInt.natAbs by_.toInt.natAbs
    omega
  · have least := Int.tmod_nonneg by_.toInt (Int.neg_nonneg_of_nonpos negative)
    rw [Int.neg_tmod] at least
    have size := Int.natAbs_tmod value.toInt by_.toInt
    have most := Nat.mod_le value.toInt.natAbs by_.toInt.natAbs
    omega

/-- Where the quotient is a word, so is what is left over, and `%` finds it. -/
theorem remainder_eq (found : checkedDiv value by_ = some quotient) :
    ∃ rest, remainder value by_ = some rest ∧
      (rest = 0 ↔ value.toInt.tmod by_.toInt = 0) := by
  have read := toInt_ofInt (inI64_tmod value by_)
  unfold checkedDiv at found
  by_cases zero : by_ = 0
  · rw [if_pos zero] at found
    cases found
  · rw [if_neg zero] at found
    refine ⟨Int64.ofInt (value.toInt.tmod by_.toInt), if_neg ?_, ?_⟩
    · rintro (zero' | ⟨rfl, rfl⟩)
      · exact zero zero'
      · have none_ : checked (Int64.minValue.toInt.tdiv (-1 : Int64).toInt) = none := by decide
        rw [none_] at found
        cases found
    · rw [← Int64.toInt_inj, read, Int64.toInt_zero]

theorem roundDownRun_eq (value by_ : Int64) :
    roundDownRun value by_ = some (roundDown value by_) := by
  unfold roundDownRun roundDown
  by_cases edge : value = Int64.minValue ∧ by_ = -1
  · rw [if_pos edge, if_pos edge]
  · rw [if_neg edge, if_neg edge]
    cases found : checkedDiv value by_ with
    | none => rfl
    | some quotient =>
        obtain ⟨rest, ran, zero⟩ := remainder_eq found
        simp only [ran, Option.bind_eq_bind, Option.bind_some, zero]
        split <;> rfl

theorem roundUpRun_eq (value by_ : Int64) :
    roundUpRun value by_ = some (roundUp value by_) := by
  unfold roundUpRun roundUp
  cases found : checkedDiv value by_ with
  | none => rfl
  | some quotient =>
      obtain ⟨rest, ran, zero⟩ := remainder_eq found
      simp only [ran, Option.bind_eq_bind, Option.bind_some, zero]
      split <;> rfl

theorem endsRun_eq (least most : Option Int64) :
    endsRun (some least) (some most) =
      some (least.bind fun low => most.bind fun high => some (.between low high)) := by
  cases least with
  | none => rfl
  | some low =>
      cases most with
      | none => rfl
      | some high => rfl

/-- No operator panics. -/
theorem dividedRun_eq (bound : Range) (count : Int64) :
    dividedRun bound count = some (divided bound count) := by
  unfold dividedRun divided
  by_cases zero : count = 0
  · rw [if_pos zero, if_pos zero]
  · rw [if_neg zero, if_neg zero]
    cases bound.bounds with
    | none => rfl
    | some ends =>
        simp only [roundUpRun_eq, roundDownRun_eq, endsRun_eq]
        split <;> rfl

/-! ## What the answer is -/

/-- Only the least word has a quotient that is no word, divided by minus one. -/
theorem inI64_tdiv (nonzero : by_ ≠ 0) (inside : ¬(value = Int64.minValue ∧ by_ = -1)) :
    InI64 (value.toInt.tdiv by_.toInt) := by
  have whole := inI64_toInt value
  have apart : by_.toInt ≠ 0 := fun zero => nonzero (Int64.toInt_inj.1 zero)
  rw [inI64_iff] at whole ⊢
  by_cases turned : by_.toInt = -1
  · have more : value.toInt ≠ -9223372036854775808 := fun least =>
      inside ⟨Int64.toInt_inj.1 least, Int64.toInt_inj.1 turned⟩
    rw [turned, Int.tdiv_neg, Int.tdiv_one]
    omega
  · rcases Int.lt_or_gt_of_ne apart with negative | positive
    · have size : (value.toInt.tdiv by_.toInt).natAbs ≤ value.toInt.natAbs / 2 := by
        rw [Int.natAbs_tdiv]
        exact Nat.div_le_div_left (by omega) (by decide)
      omega
    · have size : (value.toInt.tdiv by_.toInt).natAbs ≤ value.toInt.natAbs := by
        rw [Int.natAbs_tdiv]
        exact Nat.div_le_self _ _
      rcases Int.le_total 0 value.toInt with nonneg | nonpos
      · have high := Int.tdiv_nonneg nonneg positive.le
        omega
      · have low := Int.tdiv_nonneg (Int.neg_nonneg_of_nonpos nonpos) positive.le
        rw [Int.neg_tdiv] at low
        omega

/-- A word is at most what is rounded down exactly where it is at most the quotient. -/
theorem le_roundDown (found : roundDown value by_ = some quotient) (d : Int64) :
    d.toInt ≤ quotient.toInt ↔ d.toInt ≤ quotDown value.toInt by_.toInt := by
  rcases roundDown_eq found with ⟨⟨rfl, rfl⟩, rfl⟩ | same
  · have whole := inI64_toInt d
    have past : quotDown Int64.minValue.toInt (-1 : Int64).toInt = 9223372036854775808 := by decide
    have most : Int64.maxValue.toInt = 9223372036854775807 := rfl
    rw [inI64_iff] at whole
    rw [past, most]
    omega
  · rw [same]

theorem roundDown_none (nonzero : by_ ≠ 0) (found : roundDown value by_ = none) (d : Int64) :
    ¬ d.toInt ≤ quotDown value.toInt by_.toInt := by
  have whole := inI64_toInt d
  have signs : (value < 0 ↔ by_ < 0) ↔ (value.toInt < 0 ↔ by_.toInt < 0) := by
    simp only [Int64.lt_iff_toInt_lt, Int64.toInt_zero]
  unfold roundDown at found
  by_cases edge : value = Int64.minValue ∧ by_ = -1
  · rw [if_pos edge] at found
    cases found
  · have fits := inI64_tdiv nonzero edge
    rw [if_neg edge, checkedDiv, if_neg nonzero, checked, if_pos fits, Option.bind_eq_bind,
      Option.bind_some] at found
    simp only [signs, toInt_ofInt fits] at found
    unfold quotDown
    by_cases rounded : value.toInt.tmod by_.toInt = 0 ∨ (value.toInt < 0 ↔ by_.toInt < 0)
    · rw [if_pos rounded] at found
      cases found
    · rw [if_neg rounded] at found ⊢
      have outside := checked_eq_none.1 found
      rw [inI64_iff] at outside whole fits
      omega

theorem roundUp_none (nonzero : by_ ≠ 0) (found : roundUp value by_ = none) (d : Int64) :
    ¬ quotUp value.toInt by_.toInt ≤ d.toInt := by
  have whole := inI64_toInt d
  have signs : (value < 0 ↔ by_ < 0) ↔ (value.toInt < 0 ↔ by_.toInt < 0) := by
    simp only [Int64.lt_iff_toInt_lt, Int64.toInt_zero]
  by_cases edge : value = Int64.minValue ∧ by_ = -1
  · have past : quotUp Int64.minValue.toInt (-1 : Int64).toInt = 9223372036854775808 := by decide
    rw [inI64_iff] at whole
    rw [edge.1, edge.2, past]
    omega
  · have fits := inI64_tdiv nonzero edge
    rw [roundUp, checkedDiv, if_neg nonzero, checked, if_pos fits, Option.bind_eq_bind,
      Option.bind_some] at found
    simp only [signs, toInt_ofInt fits] at found
    unfold quotUp
    by_cases rounded : value.toInt.tmod by_.toInt = 0 ∨ ¬(value.toInt < 0 ↔ by_.toInt < 0)
    · rw [if_pos rounded] at found
      cases found
    · rw [if_neg rounded] at found ⊢
      have outside := checked_eq_none.1 found
      rw [inI64_iff] at outside whole fits
      omega

/-- What both ends make holds the words between the quotients, and there is none where an end
is missing. -/
theorem ends_exact {below above : Int64} (nonzero : by_ ≠ 0) (answer : Option Range)
    (same : answer = (roundUp below by_).bind fun low =>
      (roundDown above by_).bind fun high => some (.between low high)) :
    (∀ range, answer = some range → ∀ d : Int64, d.toInt ∈ range ↔
      quotUp below.toInt by_.toInt ≤ d.toInt ∧ d.toInt ≤ quotDown above.toInt by_.toInt) ∧
    (answer = none → ∀ d : Int64, ¬(quotUp below.toInt by_.toInt ≤ d.toInt ∧
      d.toInt ≤ quotDown above.toInt by_.toInt)) := by
  subst same
  cases least : roundUp below by_ with
  | none => exact ⟨fun _ no => (nomatch no), fun _ d both => roundUp_none nonzero least d both.1⟩
  | some low =>
      cases most : roundDown above by_ with
      | none =>
          exact ⟨fun _ no => (nomatch no), fun _ d both => roundDown_none nonzero most d both.2⟩
      | some high =>
          refine ⟨fun range found d => ?_, fun no => nomatch no⟩
          cases found
          rw [Range.mem_between, roundUp_eq least, le_roundDown most]

/-- Dividing a range by a count runs to its end, and what it answers holds exactly the words
whose product with the count, in the integers, is in the range. -/
theorem divided_exact (bound : Range) (count : Int64) (nonzero : count ≠ 0) :
    ∃ answer, dividedRun bound count = some answer ∧
      (∀ range, answer = some range →
        ∀ d : Int64, d.toInt ∈ range ↔ count.toInt * d.toInt ∈ bound) ∧
      (answer = none → ∀ d : Int64, ¬ count.toInt * d.toInt ∈ bound) := by
  refine ⟨divided bound count, dividedRun_eq bound count, ?_⟩
  cases bound with
  | empty =>
      rw [divided, if_neg nonzero]
      refine ⟨fun range found d => ?_, fun no => nomatch no⟩
      cases found
      exact iff_of_false (Range.not_mem_empty _) (Range.not_mem_empty _)
  | bounded low high =>
      by_cases positive : count > 0
      · have positive' : 0 < count.toInt := Int64.lt_iff_toInt_lt.1 positive
        have ends := ends_exact nonzero (divided (.bounded low high) count)
          (by rw [divided, if_neg nonzero]; exact if_pos positive)
        simp only [quotUp_le_iff positive', le_quotDown_iff positive'] at ends
        exact ends
      · have negative : count.toInt < 0 := by
          have weak : ¬ 0 < count.toInt := fun above => positive (Int64.lt_iff_toInt_lt.2 above)
          have apart : count.toInt ≠ 0 := fun zero => nonzero (Int64.toInt_inj.1 zero)
          omega
        have ends := ends_exact nonzero (divided (.bounded low high) count)
          (by rw [divided, if_neg nonzero]; exact if_neg positive)
        simp only [quotUp_le_iff_neg negative, le_quotDown_iff_neg negative] at ends
        refine ⟨fun range found d => (ends.1 range found d).trans and_comm, fun none_ d both => ?_⟩
        exact ends.2 none_ d both.symm

theorem divided_exact_minus_one :
    ∃ answer, dividedRun (.bounded Int64.minValue 5) (-1) = some answer ∧
      (∀ range, answer = some range → ∀ d : Int64,
        d.toInt ∈ range ↔ (-1 : Int64).toInt * d.toInt ∈ Range.bounded Int64.minValue 5) ∧
      (answer = none →
        ∀ d : Int64, ¬ (-1 : Int64).toInt * d.toInt ∈ Range.bounded Int64.minValue 5) :=
  divided_exact (.bounded Int64.minValue 5) (-1) (by decide)

end Deed.Typeck
