import Deed.Eval.Builtins
import Deed.Wasm.Words

/-!
# Arithmetic of shipped code

The shipped modules compute with checked `Int`s: an operator whose result no `Int` holds stops
the run, and so does a division by zero.  A function that computes with them answers `none`
where its run stops.
-/

namespace Deed.Stdlib

open Deed.Wasm (Fits64)

instance (number : Int) : Decidable (Fits64 number) :=
  inferInstanceAs (Decidable (_ ∧ _))

/-- The `Int` that is this number, where there is one. -/
def checked (number : Int) : Option Int64 :=
  if Fits64 number then some (Int64.ofInt number) else none

def plus (a b : Int64) : Option Int64 := checked (a.toInt + b.toInt)

def minus (a b : Int64) : Option Int64 := checked (a.toInt - b.toInt)

def times (a b : Int64) : Option Int64 := checked (a.toInt * b.toInt)

/-- `/`, which rounds towards zero. -/
def quotient (a b : Int64) : Option Int64 :=
  if b = 0 then none else checked (a.toInt.tdiv b.toInt)

/-- `%`, whose result has the sign of what is divided. -/
def remainder (a b : Int64) : Option Int64 :=
  if b = 0 ∨ (a = Int64.minValue ∧ b = -1) then none else checked (a.toInt.tmod b.toInt)

theorem fits_toInt (a : Int64) : Fits64 a.toInt :=
  ⟨Int64.le_toInt a, Int64.toInt_lt a⟩

/-- A checked result is the number itself. -/
theorem checked_eq_some {number : Int} {a : Int64} : checked number = some a ↔ a.toInt = number := by
  rw [checked]
  constructor
  · intro answered
    split at answered
    · next fits =>
        cases answered
        exact Deed.Wasm.toInt_ofInt64 fits
    · cases answered
  · rintro rfl
    rw [if_pos (fits_toInt a), Int64.ofInt_toInt]

theorem checked_eq_none {number : Int} : checked number = none ↔ ¬Fits64 number := by
  rw [checked]
  split <;> simp_all

/-- Adding up what is not below zero stops where the sum does not fit. -/
theorem checked_plus {a b : Int} (pos : 0 ≤ a) (pos' : 0 ≤ b) :
    ((checked a).bind fun left => (checked b).bind fun right => plus left right) =
      checked (a + b) := by
  have less : Fits64 (a + b) → Fits64 a ∧ Fits64 b := by
    unfold Fits64
    omega
  by_cases fits : Fits64 a ∧ Fits64 b
  · obtain ⟨left, answer⟩ := Option.ne_none_iff_exists'.mp (mt checked_eq_none.mp (not_not.mpr fits.1))
    obtain ⟨right, answer'⟩ := Option.ne_none_iff_exists'.mp (mt checked_eq_none.mp (not_not.mpr fits.2))
    rw [answer, answer']
    show checked (left.toInt + right.toInt) = _
    rw [checked_eq_some.mp answer, checked_eq_some.mp answer']
  · rw [checked_eq_none.mpr (mt less fits)]
    rcases not_and_or.mp fits with over_ | over_
    · rw [checked_eq_none.mpr over_]
      rfl
    · rw [checked_eq_none.mpr over_]
      cases checked a <;> rfl

/-! ## The operators of the language -/

theorem checkedInt_eq (number : Int) :
    Eval.checkedInt number = (checked number).map Eval.Value.int := by
  rw [Eval.checkedInt, checked]
  have range : (Int64.minValue.toInt ≤ number ∧ number ≤ Int64.maxValue.toInt) ↔
      Fits64 number := by
    rw [Fits64, show Int64.minValue.toInt = -2 ^ 63 from rfl,
      show Int64.maxValue.toInt = 2 ^ 63 - 1 from rfl]
    omega
  by_cases fits : Fits64 number
  · rw [if_pos fits, if_pos (range.mpr fits)]
    rfl
  · rw [if_neg fits, if_neg (mt range.mp fits)]
    rfl

/-- The operators above are those that evaluate the operators of the language. -/
theorem intBinary_arithmetic (a b : Int64) :
    Eval.intBinary .add a b = (plus a b).map .int ∧
      Eval.intBinary .sub a b = (minus a b).map .int ∧
      Eval.intBinary .mul a b = (times a b).map .int ∧
      Eval.intBinary .div a b = (quotient a b).map .int ∧
      Eval.intBinary .rem a b = (remainder a b).map .int := by
  refine ⟨checkedInt_eq _, checkedInt_eq _, checkedInt_eq _, ?_, ?_⟩
  · rw [Eval.intBinary, quotient]
    split
    · rfl
    · exact checkedInt_eq _
  · rw [Eval.intBinary, remainder]
    split
    · rfl
    · exact checkedInt_eq _

end Deed.Stdlib
