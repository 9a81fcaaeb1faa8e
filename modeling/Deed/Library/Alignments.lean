import Mathlib

/-!
# Optimal string alignment

What it costs to turn one list into another by inserting, deleting and replacing elements and
by swapping two that stand side by side, where nothing is edited twice; and the table over the
prefixes of both lists that holds the least cost.
-/

namespace Deed.Library

variable {α : Type}

/-- One list turned into another at a cost. -/
inductive Aligns : List α → List α → Nat → Prop where
  | nil : Aligns [] [] 0
  | insert {a b : List α} {cost : Nat} (y : α) : Aligns a b cost → Aligns a (b ++ [y]) (cost + 1)
  | delete {a b : List α} {cost : Nat} (x : α) : Aligns a b cost → Aligns (a ++ [x]) b (cost + 1)
  | keep {a b : List α} {cost : Nat} (x : α) : Aligns a b cost → Aligns (a ++ [x]) (b ++ [x]) cost
  | replace {a b : List α} {cost : Nat} (x y : α) : Aligns a b cost →
      Aligns (a ++ [x]) (b ++ [y]) (cost + 1)
  | swap {a b : List α} {cost : Nat} (x y : α) : Aligns a b cost →
      Aligns (a ++ [x, y]) (b ++ [y, x]) (cost + 1)

/-- The distance of two lists: the least that an alignment costs. -/
def IsDistance (a b : List α) (distance : Nat) : Prop :=
  Aligns a b distance ∧ ∀ cost, Aligns a b cost → distance ≤ cost

theorem IsDistance.unique {a b : List α} {distance other : Nat} (first : IsDistance a b distance)
    (second : IsDistance a b other) : other = distance :=
  Nat.le_antisymm (second.2 _ first.1) (first.2 _ second.1)

section Table

variable [DecidableEq α] (a b : List α)

/-- The least cost for the prefixes of two lengths. -/
def table : Nat → Nat → Nat
  | 0, j => j
  | i + 1, 0 => i + 1
  | i + 1, j + 1 =>
      let plain := min (min (table (i + 1) j + 1) (table i (j + 1) + 1))
        (table i j + if a[i]? = b[j]? then 0 else 1)
      if 0 < i ∧ 0 < j ∧ a[i]? = b[j - 1]? ∧ a[i - 1]? = b[j]? then
        min plain (table (i - 1) (j - 1) + 1)
      else plain
termination_by i j => i + j

theorem table_zero (j : Nat) : table a b 0 j = j := by rw [table]

theorem table_left (i : Nat) : table a b i 0 = i := by
  cases i with
  | zero => rw [table]
  | succ i => rw [table]

/-- The prefixes differ in length by no more than their cost. -/
theorem table_gap (i j : Nat) : i ≤ table a b i j + j ∧ j ≤ table a b i j + i := by
  fun_induction table a b i j with
  | case1 j => omega
  | case2 i => omega
  | case3 i j plain swaps left up corner before =>
      have short : plain ≤ table a b (i + 1) j + 1 ∧ plain ≤ table a b i (j + 1) + 1 ∧
          min (min (table a b (i + 1) j + 1) (table a b i (j + 1) + 1)) (table a b i j) ≤ plain := by
        simp only [plain]
        split <;> omega
      omega
  | case4 i j plain straight left up corner =>
      have short : plain ≤ table a b (i + 1) j + 1 ∧ plain ≤ table a b i (j + 1) + 1 ∧
          min (min (table a b (i + 1) j + 1) (table a b i (j + 1) + 1)) (table a b i j) ≤ plain := by
        simp only [plain]
        split <;> omega
      omega

theorem table_le_plain (i j : Nat) : table a b (i + 1) (j + 1) ≤
    min (min (table a b (i + 1) j + 1) (table a b i (j + 1) + 1))
      (table a b i j + if a[i]? = b[j]? then 0 else 1) := by
  rw [table.eq_def a b (i + 1) (j + 1)]
  simp only
  split
  · exact Nat.min_le_left _ _
  · exact le_refl _

theorem table_right (i j : Nat) : table a b i (j + 1) ≤ table a b i j + 1 := by
  cases i with
  | zero => rw [table_zero, table_zero]
  | succ i =>
      exact (table_le_plain a b i j).trans ((Nat.min_le_left _ _).trans (Nat.min_le_left _ _))

theorem table_down (i j : Nat) : table a b (i + 1) j ≤ table a b i j + 1 := by
  cases j with
  | zero => rw [table_left, table_left]
  | succ j =>
      exact (table_le_plain a b i j).trans ((Nat.min_le_left _ _).trans (Nat.min_le_right _ _))

theorem table_corner (i j : Nat) : table a b (i + 1) (j + 1) ≤
    table a b i j + if a[i]? = b[j]? then 0 else 1 :=
  (table_le_plain a b i j).trans (Nat.min_le_right _ _)

theorem table_swap {i j : Nat} (first : a[i + 1]? = b[j]?) (second : a[i]? = b[j + 1]?) :
    table a b (i + 2) (j + 2) ≤ table a b i j + 1 := by
  rw [table, if_pos ⟨Nat.succ_pos i, Nat.succ_pos j, first, second⟩]
  exact Nat.min_le_right _ _

theorem table_sum (i j : Nat) : table a b i j ≤ i + j := by
  induction j with
  | zero => rw [table_left, Nat.add_zero]
  | succ j ih => exact (table_right a b i j).trans (Nat.add_le_add_right ih 1)

/-! ## The table is the distance -/

variable {a b}

omit [DecidableEq α] in
theorem take_concat {list : List α} {i : Nat} (inside : i ≤ list.length) {front : List α} {x : α}
    (same : list.take i = front ++ [x]) :
    ∃ j, i = j + 1 ∧ front = list.take j ∧ list[j]? = some x := by
  have size := congrArg List.length same
  rw [List.length_take, List.length_append, List.length_singleton, Nat.min_eq_left inside] at size
  refine ⟨front.length, size, ?_, ?_⟩
  · have shorter := congrArg (List.take front.length) same
    rw [List.take_take, List.take_left, Nat.min_eq_left (by omega)] at shorter
    exact shorter.symm
  · have found := congrArg (fun list => list[front.length]?) same
    rw [List.getElem?_take_of_lt (by omega), List.getElem?_append_right (le_refl _),
      Nat.sub_self] at found
    exact found

/-- No alignment costs less than the table says. -/
theorem table_le {front back : List α} {cost : Nat} (aligns : Aligns front back cost) {i j : Nat}
    (inside : i ≤ a.length) (inside' : j ≤ b.length) (left : front = a.take i)
    (right : back = b.take j) : table a b i j ≤ cost := by
  induction aligns generalizing i j with
  | nil =>
      have none_ := congrArg List.length left
      have none' := congrArg List.length right
      rw [List.length_take, Nat.min_eq_left inside, List.length_nil] at none_
      rw [List.length_take, Nat.min_eq_left inside', List.length_nil] at none'
      rw [← none_, ← none', table_zero]
  | insert y aligns ih =>
      obtain ⟨j, rfl, right, -⟩ := take_concat inside' right.symm
      exact (table_right a b i j).trans
        (Nat.add_le_add_right (ih inside (Nat.le_of_succ_le inside') left right) 1)
  | delete x aligns ih =>
      obtain ⟨i, rfl, left, -⟩ := take_concat inside left.symm
      exact (table_down a b i j).trans
        (Nat.add_le_add_right (ih (Nat.le_of_succ_le inside) inside' left right) 1)
  | keep x aligns ih =>
      obtain ⟨i, rfl, left, here⟩ := take_concat inside left.symm
      obtain ⟨j, rfl, right, there⟩ := take_concat inside' right.symm
      have corner := table_corner a b i j
      rw [here, there, if_pos rfl] at corner
      exact corner.trans (ih (Nat.le_of_succ_le inside) (Nat.le_of_succ_le inside') left right)
  | replace x y aligns ih =>
      obtain ⟨i, rfl, left, -⟩ := take_concat inside left.symm
      obtain ⟨j, rfl, right, -⟩ := take_concat inside' right.symm
      have less := ih (Nat.le_of_succ_le inside) (Nat.le_of_succ_le inside') left right
      have corner := table_corner a b i j
      split at corner <;> omega
  | @swap front back cost x y aligns ih =>
      have left' : a.take i = (front ++ [x]) ++ [y] := by rw [← left, List.append_assoc]; rfl
      have right' : b.take j = (back ++ [y]) ++ [x] := by rw [← right, List.append_assoc]; rfl
      obtain ⟨i, rfl, left, second⟩ := take_concat inside left'
      obtain ⟨j, rfl, right, second'⟩ := take_concat inside' right'
      obtain ⟨i, rfl, left, first⟩ := take_concat (Nat.le_of_succ_le inside) left.symm
      obtain ⟨j, rfl, right, first'⟩ := take_concat (Nat.le_of_succ_le inside') right.symm
      have less := ih (by omega) (by omega) left right
      exact (table_swap a b (second.trans first'.symm) (first.trans second'.symm)).trans
        (Nat.add_le_add_right less 1)

omit [DecidableEq α] in
theorem aligns_inserts (b : List α) : Aligns [] b b.length := by
  induction b using List.reverseRecOn with
  | nil => exact .nil
  | append_singleton b y ih =>
      rw [List.length_append, List.length_singleton]
      exact ih.insert y

omit [DecidableEq α] in
theorem aligns_deletes (a : List α) : Aligns a [] a.length := by
  induction a using List.reverseRecOn with
  | nil => exact .nil
  | append_singleton a x ih =>
      rw [List.length_append, List.length_singleton]
      exact ih.delete x

/-- The cell that a cell of the table comes from. -/
theorem table_from (a b : List α) (i j : Nat) :
    table a b (i + 1) (j + 1) = table a b (i + 1) j + 1 ∨
      table a b (i + 1) (j + 1) = table a b i (j + 1) + 1 ∨
      table a b (i + 1) (j + 1) = table a b i j + 1 ∨
      (a[i]? = b[j]? ∧ table a b (i + 1) (j + 1) = table a b i j) ∨
      ∃ i' j', i = i' + 1 ∧ j = j' + 1 ∧ a[i' + 1]? = b[j']? ∧ a[i']? = b[j' + 1]? ∧
        table a b (i + 1) (j + 1) = table a b i' j' + 1 := by
  have plain : ∀ cell, cell = min (min (table a b (i + 1) j + 1) (table a b i (j + 1) + 1))
      (table a b i j + if a[i]? = b[j]? then 0 else 1) →
      cell = table a b (i + 1) j + 1 ∨ cell = table a b i (j + 1) + 1 ∨
        cell = table a b i j + 1 ∨ (a[i]? = b[j]? ∧ cell = table a b i j) := by
    intro cell least
    split at least
    · rename_i same
      rw [Nat.add_zero] at least
      rcases min_choice (min (table a b (i + 1) j + 1) (table a b i (j + 1) + 1)) (table a b i j)
        with chosen | chosen
      · omega
      · exact .inr (.inr (.inr ⟨same, least.trans chosen⟩))
    · omega
  rw [table.eq_def a b (i + 1) (j + 1)]
  simp only
  split
  · rename_i swaps
    obtain ⟨after, after', first, second⟩ := swaps
    obtain ⟨i, rfl⟩ := Nat.exists_eq_succ_of_ne_zero (Nat.pos_iff_ne_zero.mp after)
    obtain ⟨j, rfl⟩ := Nat.exists_eq_succ_of_ne_zero (Nat.pos_iff_ne_zero.mp after')
    rcases Nat.le_total (min (min (table a b (i + 1 + 1) (j + 1) + 1)
        (table a b (i + 1) (j + 1 + 1) + 1))
        (table a b (i + 1) (j + 1) + if a[i + 1]? = b[j + 1]? then 0 else 1))
        (table a b i j + 1) with less | more
    · rcases plain _ (Nat.min_eq_left less) with left | up | across | kept
      · exact .inl left
      · exact .inr (.inl up)
      · exact .inr (.inr (.inl across))
      · exact .inr (.inr (.inr (.inl kept)))
    · exact .inr (.inr (.inr (.inr ⟨i, j, rfl, rfl, first, second, Nat.min_eq_right more⟩)))
  · rcases plain _ rfl with left | up | across | kept
    · exact .inl left
    · exact .inr (.inl up)
    · exact .inr (.inr (.inl across))
    · exact .inr (.inr (.inr (.inl kept)))

/-- No row falls below what every cell of the row before it reaches. -/
theorem table_row {i n least : Nat} (row : ∀ j ≤ n, least ≤ table a b i j) :
    ∀ j ≤ n, least ≤ table a b (i + 1) j := by
  intro j inside
  induction j with
  | zero =>
      have first := row 0 inside
      rw [table_left] at first ⊢
      omega
  | succ j ih =>
      have left := ih (Nat.le_of_succ_le inside)
      have up := row (j + 1) inside
      have corner := row j (Nat.le_of_succ_le inside)
      rcases table_from a b i j with cell | cell | cell | ⟨-, cell⟩ |
        ⟨i, j, rfl, rfl, -, -, cell⟩
      · omega
      · omega
      · omega
      · omega
      · have below := (row j (by omega)).trans (table_down a b i j)
        omega

/-- What the table says is the cost of an alignment. -/
theorem table_aligns {i j : Nat} (inside : i ≤ a.length) (inside' : j ≤ b.length) :
    Aligns (a.take i) (b.take j) (table a b i j) := by
  induction size : i + j using Nat.strong_induction_on generalizing i j with
  | _ size ih =>
      subst size
      match i, j with
      | 0, j =>
          have inserts := aligns_inserts (b.take j)
          rw [List.length_take, Nat.min_eq_left inside'] at inserts
          rw [table_zero]
          exact inserts
      | i + 1, 0 =>
          have deletes := aligns_deletes (a.take (i + 1))
          rw [List.length_take, Nat.min_eq_left inside] at deletes
          rw [table_left]
          exact deletes
      | i + 1, j + 1 =>
          have front : a.take (i + 1) = a.take i ++ [a[i]] := by simp
          have back : b.take (j + 1) = b.take j ++ [b[j]] := by simp
          rcases table_from a b i j with cell | cell | cell | ⟨same, cell⟩ |
            ⟨i, j, rfl, rfl, first, second, cell⟩
          · rw [cell, back]
            exact (ih _ (by omega) inside (by omega) rfl).insert _
          · rw [cell, front]
            exact (ih _ (by omega) (by omega) inside' rfl).delete _
          · rw [cell, front, back]
            exact (ih _ (by omega) (by omega) (by omega) rfl).replace _ _
          · rw [List.getElem?_eq_getElem inside, List.getElem?_eq_getElem inside'] at same
            rw [cell, front, back, Option.some.inj same]
            exact (ih _ (by omega) (by omega) (by omega) rfl).keep _
          · have before : i < a.length := by omega
            have before' : j < b.length := by omega
            rw [List.getElem?_eq_getElem inside, List.getElem?_eq_getElem before'] at first
            rw [List.getElem?_eq_getElem before, List.getElem?_eq_getElem inside'] at second
            have swapped := (ih (i + j) (by omega) (by omega) (by omega) rfl).swap a[i] a[i + 1]
            rw [cell, front, back, List.take_succ_eq_append_getElem before,
              List.take_succ_eq_append_getElem before', ← Option.some.inj first,
              ← Option.some.inj second, List.append_assoc, List.append_assoc]
            exact swapped

theorem table_isDistance (a b : List α) : IsDistance a b (table a b a.length b.length) := by
  refine ⟨?_, fun cost aligns => table_le aligns (le_refl _) (le_refl _)
    a.take_length.symm b.take_length.symm⟩
  have aligns := table_aligns (le_refl a.length) (le_refl b.length)
  rwa [List.take_length, List.take_length] at aligns

end Table

end Deed.Library
