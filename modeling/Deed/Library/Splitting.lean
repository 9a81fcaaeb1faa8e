import Mathlib

/-!
# Cutting lists

Cutting a list in two at a separator, and taking what is not wanted off its ends.
The elements are of any type.
-/

namespace Deed.Library

variable {α : Type} [DecidableEq α]

/-- What is before the first place where `separator` is, and what is after it. -/
def splitOnce (separator : List α) : List α → Option (List α × List α)
  | [] => if separator = [] then some ([], []) else none
  | head :: rest =>
      if separator.isPrefixOf (head :: rest) then
        some ([], (head :: rest).drop separator.length)
      else (splitOnce separator rest).map fun halves => (head :: halves.1, halves.2)

/-- What is before the last `mark`, and what is after it. -/
def rsplitOnce (mark : α) : List α → Option (List α × List α)
  | [] => none
  | head :: rest =>
      match rsplitOnce mark rest with
      | some halves => some (head :: halves.1, halves.2)
      | none => if head = mark then some ([], rest) else none

/-- A list without the elements at either end that `unwanted` holds of. -/
def trim (unwanted : α → Bool) (list : List α) : List α :=
  (list.dropWhile unwanted).rdropWhile unwanted

theorem splitOnce_eq_some {separator list before after : List α}
    (split : splitOnce separator list = some (before, after)) :
    list = before ++ separator ++ after := by
  induction list generalizing before with
  | nil =>
      rw [splitOnce] at split
      split at split
      · next empty =>
          rcases Prod.mk.inj (Option.some.inj split) with ⟨rfl, rfl⟩
          rw [empty]
          rfl
      · exact absurd split.symm (Option.some_ne_none _)
  | cons head rest ih =>
      rw [splitOnce] at split
      split at split
      · next here =>
          rcases Prod.mk.inj (Option.some.inj split) with ⟨rfl, rfl⟩
          exact (List.prefix_iff_eq_append.1 (List.isPrefixOf_iff_prefix.1 here)).symm
      · rcases Option.map_eq_some_iff.1 split with ⟨⟨front, back⟩, found, same⟩
        rcases Prod.mk.inj same with ⟨rfl, rfl⟩
        rw [List.cons_append, List.cons_append, ← ih found]

theorem splitOnce_eq_none {separator list : List α} (real : separator ≠ []) :
    splitOnce separator list = none ↔ ¬separator <:+: list := by
  induction list with
  | nil =>
      rw [splitOnce, if_neg real, List.infix_nil]
      exact iff_of_true rfl real
  | cons head rest ih =>
      rw [splitOnce, List.infix_cons_iff, not_or, ← List.isPrefixOf_iff_prefix]
      cases separator.isPrefixOf (head :: rest) with
      | true => simp
      | false =>
          rw [if_neg Bool.false_ne_true, Option.map_eq_none_iff, ih]
          simp

/-- The first place of a separator comes after a front that does not begin one. -/
theorem splitOnce_append {separator front back : List α} (real : separator ≠ [])
    (first : ¬separator <:+: front ++ separator.dropLast) :
    splitOnce separator (front ++ separator ++ back) = some (front, back) := by
  induction front with
  | nil =>
      rcases List.exists_cons_of_ne_nil real with ⟨head, rest, rfl⟩
      have here : (head :: rest).isPrefixOf (head :: (rest ++ back)) = true :=
        List.isPrefixOf_iff_prefix.2 (List.prefix_append (head :: rest) back)
      rw [List.nil_append, List.cons_append, splitOnce, if_pos here]
      exact congrArg (fun rest => Option.some ([], rest))
        List.drop_left
  | cons head front ih =>
      rw [List.cons_append, List.infix_cons_iff, not_or] at first
      have later : ¬separator.isPrefixOf (head :: (front ++ separator ++ back)) = true := by
        intro here
        apply first.1
        apply List.prefix_of_prefix_length_le (List.isPrefixOf_iff_prefix.1 here)
        · refine ⟨[separator.getLast real] ++ back, ?_⟩
          rw [← List.cons_append, List.append_assoc, ← List.append_assoc separator.dropLast,
            List.dropLast_append_getLast, ← List.append_assoc]
          rfl
        · rw [List.length_cons, List.length_append, List.length_dropLast]
          have := List.length_pos_iff.2 real
          omega
      rw [List.cons_append, List.cons_append, splitOnce, if_neg later, ih first.2]
      rfl

theorem rsplitOnce_eq_none {mark : α} {list : List α} :
    rsplitOnce mark list = none ↔ mark ∉ list := by
  induction list with
  | nil => exact iff_of_true rfl List.not_mem_nil
  | cons head rest ih =>
      rw [rsplitOnce, List.mem_cons, not_or, ← ih]
      cases rsplitOnce mark rest with
      | some halves => simp
      | none =>
          by_cases same : head = mark
          · simp [same]
          · simp [same, Ne.symm same]

theorem rsplitOnce_eq_some {mark : α} {list before after : List α}
    (split : rsplitOnce mark list = some (before, after)) :
    list = before ++ mark :: after ∧ mark ∉ after := by
  induction list generalizing before with
  | nil => exact absurd split.symm (Option.some_ne_none _)
  | cons head rest ih =>
      rw [rsplitOnce] at split
      cases found : rsplitOnce mark rest with
      | some halves =>
          rw [found] at split
          rcases Prod.mk.inj (Option.some.inj split) with ⟨rfl, rfl⟩
          rcases ih found with ⟨whole, last⟩
          exact ⟨congrArg (head :: ·) whole, last⟩
      | none =>
          simp only [found] at split
          split at split
          · next same =>
              rcases Prod.mk.inj (Option.some.inj split) with ⟨rfl, rfl⟩
              exact ⟨congrArg (· :: rest) same, rsplitOnce_eq_none.1 found⟩
          · exact absurd split.symm (Option.some_ne_none _)

omit [DecidableEq α] in
/-- A mark that neither front holds cuts a list in one way. -/
theorem append_cons_inj {mark : α} {front front' back back' : List α}
    (absent : mark ∉ front) (absent' : mark ∉ front')
    (same : front ++ mark :: back = front' ++ mark :: back') :
    front = front' ∧ back = back' := by
  induction front generalizing front' with
  | nil =>
      cases front' with
      | nil => exact ⟨rfl, (List.cons.inj same).2⟩
      | cons head rest =>
          rw [List.nil_append, List.cons_append] at same
          exact absurd (List.mem_cons.2 (Or.inl (List.cons.inj same).1)) absent'
  | cons head rest ih =>
      cases front' with
      | nil =>
          rw [List.nil_append, List.cons_append] at same
          exact absurd (List.mem_cons.2 (Or.inl (List.cons.inj same).1.symm)) absent
      | cons head' rest' =>
          rw [List.cons_append, List.cons_append] at same
          rcases List.cons.inj same with ⟨rfl, tails⟩
          rw [List.mem_cons, not_or] at absent absent'
          rcases ih absent.2 absent'.2 tails with ⟨rfl, rfl⟩
          exact ⟨rfl, rfl⟩

end Deed.Library
