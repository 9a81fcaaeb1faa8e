import Mathlib

/-!
# Bounded Euclid

Euclid's algorithm with a bounded number of turns.  A pair that has not settled after some
turns had a right side that is at least a Fibonacci number, so a bound on the numbers bounds the
turns that settle every pair of them.
-/

namespace Deed.Library.Euclid

/-- So many turns, but none once the right side is zero. -/
def turns : ℕ → ℕ × ℕ → ℕ × ℕ
  | 0, pair => pair
  | count + 1, (left, right) =>
      if right = 0 then (left, right) else turns count (right, left % right)

variable {count left right : ℕ}

theorem turns_zero_right : turns count (left, 0) = (left, 0) := by
  cases count with
  | zero => rfl
  | succ count => rw [turns, if_pos rfl]

theorem turns_succ (unsettled : right ≠ 0) :
    turns (count + 1) (left, right) = turns count (right, left % right) := by
  rw [turns, if_neg unsettled]

/-- A turn keeps the greatest common divisor. -/
theorem gcd_turns : Nat.gcd (turns count (left, right)).1 (turns count (left, right)).2 =
    Nat.gcd left right := by
  induction count generalizing left right with
  | zero => rfl
  | succ count ih =>
      rw [turns]
      split_ifs with settled
      · rfl
      · rw [ih, Nat.gcd_comm, ← Nat.gcd_rec, Nat.gcd_comm]

/-- A pair that is not settled after some turns had a right side of at least a Fibonacci
number: each turn that does not settle it takes at least the next smaller one away. -/
theorem fib_le (unsettled : (turns count (left, right)).2 ≠ 0) : Nat.fib (count + 2) ≤ right := by
  induction count using Nat.strong_induction_on generalizing left right with
  | _ count ih =>
      have positive : right ≠ 0 := by
        rintro rfl
        exact unsettled (by rw [turns_zero_right])
      match count with
      | 0 => exact Nat.pos_of_ne_zero positive
      | 1 =>
          rw [turns_succ positive, turns] at unsettled
          have below := Nat.mod_lt left (Nat.pos_of_ne_zero positive)
          show 2 ≤ right
          omega
      | count + 2 =>
          rw [turns_succ positive] at unsettled
          have first := ih (count + 1) (Nat.lt_succ_self _) unsettled
          have positive' : left % right ≠ 0 := by
            rintro zero
            rw [zero, turns_zero_right] at unsettled
            exact unsettled rfl
          rw [turns_succ positive'] at unsettled
          have second := ih count (by omega) unsettled
          have below := Nat.mod_lt left (Nat.pos_of_ne_zero positive)
          have split : left % right + right % (left % right) ≤ right := by
            have whole := Nat.div_add_mod right (left % right)
            have once : 1 ≤ right / (left % right) :=
              Nat.div_pos below.le (Nat.pos_of_ne_zero positive')
            have part := Nat.mul_le_mul_left (left % right) once
            omega
          calc Nat.fib (count + 2 + 2) = Nat.fib (count + 2) + Nat.fib (count + 1 + 2) :=
                Nat.fib_add_two
            _ ≤ right := by omega

/-- Enough turns answer with the greatest common divisor. -/
theorem turns_settled (small : right < Nat.fib (count + 2)) :
    turns count (left, right) = (Nat.gcd left right, 0) := by
  have settled : (turns count (left, right)).2 = 0 := by
    by_contra unsettled
    exact absurd (fib_le unsettled) (not_le.mpr small)
  have divisor := @gcd_turns count left right
  rw [settled, Nat.gcd_zero_right] at divisor
  exact Prod.ext divisor settled

end Deed.Library.Euclid
