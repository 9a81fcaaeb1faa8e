import Deed.Library.Splitting

/-!
# Searching lists

Where a list is first found inside another, and what is left of a list when what is not wanted
is taken off one end of it and then off the other.
-/

namespace Deed.Library

variable {α : Type}

/-- Nothing is found before the front that a split leaves. -/
theorem splitOnce_first [DecidableEq α] {separator list before after : List α}
    (split : splitOnce separator list = some (before, after)) {place : Nat}
    (earlier : place < before.length) : ¬separator <+: list.drop place := by
  induction list generalizing before place with
  | nil =>
      rw [splitOnce] at split
      split at split
      · rcases Prod.mk.inj (Option.some.inj split) with ⟨rfl, rfl⟩
        exact absurd earlier (Nat.not_lt_zero _)
      · cases split
  | cons head rest ih =>
      rw [splitOnce] at split
      split at split
      · rcases Prod.mk.inj (Option.some.inj split) with ⟨rfl, rfl⟩
        exact absurd earlier (Nat.not_lt_zero _)
      · next other =>
          rcases Option.map_eq_some_iff.1 split with ⟨⟨front, back⟩, found, same⟩
          rcases Prod.mk.inj same with ⟨rfl, rfl⟩
          cases place with
          | zero => exact fun here => other (List.isPrefixOf_iff_prefix.2 here)
          | succ place => exact ih found (Nat.lt_of_succ_lt_succ earlier)

/-- A list is inside another where it begins some end of it. -/
theorem infix_iff_drop {separator list : List α} :
    separator <:+: list ↔ ∃ place, separator <+: list.drop place := by
  constructor
  · rintro ⟨front, back, rfl⟩
    refine ⟨front.length, back, ?_⟩
    rw [List.append_assoc, List.drop_left]
  · rintro ⟨place, begins⟩
    exact begins.isInfix.trans (List.drop_suffix place list).isInfix

/-! ## The two ends -/

theorem rdropWhile_cons (unwanted : α → Bool) (head : α) (rest : List α) :
    (head :: rest).rdropWhile unwanted =
      if rest.rdropWhile unwanted = [] ∧ unwanted head = true then []
      else head :: rest.rdropWhile unwanted := by
  induction rest using List.reverseRecOn with
  | nil =>
      rw [List.rdropWhile_singleton, List.rdropWhile_nil]
      by_cases gone : unwanted head = true
      · rw [if_pos gone, if_pos ⟨rfl, gone⟩]
      · rw [if_neg gone, if_neg (fun both => gone both.2)]
  | append_singleton rest last ih =>
      rw [← List.cons_append]
      by_cases gone : unwanted last = true
      · rw [List.rdropWhile_concat_pos unwanted _ _ gone, List.rdropWhile_concat_pos unwanted _ _ gone,
          ih]
      · rw [List.rdropWhile_concat_neg unwanted _ _ gone,
          List.rdropWhile_concat_neg unwanted _ _ gone,
          if_neg (fun both => List.append_ne_nil_of_right_ne_nil rest (List.cons_ne_nil _ _) both.1)]
        rfl

/-- It does not matter which end is trimmed first. -/
theorem dropWhile_rdropWhile (unwanted : α → Bool) (list : List α) :
    (list.rdropWhile unwanted).dropWhile unwanted =
      (list.dropWhile unwanted).rdropWhile unwanted := by
  induction list with
  | nil => rfl
  | cons head rest ih =>
      rw [rdropWhile_cons, List.dropWhile_cons]
      by_cases gone : unwanted head = true
      · rw [if_pos gone, ← ih]
        by_cases empty : rest.rdropWhile unwanted = []
        · rw [if_pos ⟨empty, gone⟩, empty]
        · rw [if_neg (fun both => empty both.1), List.dropWhile_cons, if_pos gone]
      · rw [if_neg (fun both => gone both.2), if_neg gone, rdropWhile_cons,
          if_neg (fun both => gone both.2), List.dropWhile_cons, if_neg gone]

end Deed.Library
