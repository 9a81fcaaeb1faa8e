import Deed.Resolve.Nearest

/-!
# The suggestion is the nearest name

The band computes the table wherever it is within the limit, and the best candidate is the
nearest one where that one is listed once.
-/

namespace Deed.Resolve.Names

open Deed.Library

theorem plus_eq {checks : Bool} {a b : Nat} (small : a + b < 2 ^ 64) :
    plus checks a b = some (a + b) := if_pos small

theorem plus_panics {a b : Nat} (large : 2 ^ 64 ≤ a + b) : plus true a b = none := by
  rw [plus, if_neg (by omega), if_pos rfl]

/-! ## Rows -/

section Rows

variable (a b : Text) (tooFar : Nat)

/-- A row of the table, cut off where it is too far. -/
def rowOf (i : Nat) : List Nat :=
  (List.range (b.length + 1)).map fun j => min (table a b i j) tooFar

/-- The row under way: what is behind a place is still too far. -/
def partRow (i j : Nat) : List Nat :=
  (List.range (b.length + 1)).map fun k => if k ≤ j then min (table a b i k) tooFar else tooFar

theorem rowOf_length (i : Nat) : (rowOf a b tooFar i).length = b.length + 1 := by
  rw [rowOf, List.length_map, List.length_range]

theorem partRow_length (i j : Nat) : (partRow a b tooFar i j).length = b.length + 1 := by
  rw [partRow, List.length_map, List.length_range]

variable {a b tooFar}

theorem rowOf_get {i j : Nat} (inside : j ≤ b.length) :
    (rowOf a b tooFar i)[j]? = some (min (table a b i j) tooFar) := by
  rw [rowOf, List.getElem?_map, List.getElem?_range (by omega)]
  rfl

theorem partRow_get {i j k : Nat} (inside : k ≤ b.length) (done : k ≤ j) :
    (partRow a b tooFar i j)[k]? = some (min (table a b i k) tooFar) := by
  rw [partRow, List.getElem?_map, List.getElem?_range (by omega)]
  exact congrArg some (if_pos done)

theorem partRow_set {i j : Nat} :
    (partRow a b tooFar i j).set (j + 1) (min (table a b i (j + 1)) tooFar) =
      partRow a b tooFar i (j + 1) := by
  refine List.ext_getElem ?_ fun k inside inside' => ?_
  · rw [List.length_set, partRow_length, partRow_length]
  · rw [List.getElem_set]
    simp only [partRow, List.getElem_map, List.getElem_range]
    by_cases here : j + 1 = k
    · rw [if_pos here, if_pos (by omega), here]
    · rw [if_neg here]
      by_cases done : k ≤ j
      · rw [if_pos done, if_pos (by omega)]
      · rw [if_neg done, if_neg (by omega)]

/-- The band ends where the rest of the row is too far. -/
theorem partRow_full {i j : Nat} (far : ∀ k ≤ b.length, j < k → tooFar ≤ table a b i k) :
    partRow a b tooFar i j = rowOf a b tooFar i := by
  refine List.map_congr_left fun k inside => ?_
  have inside := List.mem_range.mp inside
  split
  · rfl
  · exact (Nat.min_eq_right (far k (by omega) (by omega))).symm

/-- The band starts where the cells before it are too far. -/
theorem partRow_reset {i first : Nat} {cells : List Nat} (size : cells.length = b.length)
    (far : ∀ k ≤ first, 0 < k → tooFar ≤ table a b (i + 1) k) :
    (min (i + 1) tooFar :: cells.map fun _ => tooFar) = partRow a b tooFar (i + 1) first := by
  refine List.ext_getElem ?_ fun k inside inside' => ?_
  · rw [List.length_cons, List.length_map, size, partRow_length]
  · simp only [partRow, List.getElem_map, List.getElem_range]
    cases k with
    | zero => rw [if_pos (Nat.zero_le _), table_left, List.getElem_cons_zero]
    | succ k =>
        rw [List.getElem_cons_succ, List.getElem_map]
        split
        · rename_i before
          exact (Nat.min_eq_right (far (k + 1) before (Nat.succ_pos k))).symm
        · rfl

theorem cut_min {one one' two two' tooFar : Nat} (first : min one tooFar = min one' tooFar)
    (second : min two tooFar = min two' tooFar) :
    min (min one two) tooFar = min (min one' two') tooFar := by
  omega

theorem cut_add (cell cost tooFar : Nat) :
    min (min cell tooFar + cost) tooFar = min (cell + cost) tooFar := by
  omega

/-- Cells that are cut off give the cell of the table, cut off. -/
theorem cut_plain (left up corner cost tooFar : Nat) :
    min (min (min (min left tooFar + 1) (min up tooFar + 1)) (min corner tooFar + cost)) tooFar =
      min (min (min (left + 1) (up + 1)) (corner + cost)) tooFar :=
  cut_min (cut_min (cut_add _ _ _) (cut_add _ _ _)) (cut_add _ _ _)

theorem cut_swapped (left up corner cost before tooFar : Nat) :
    min (min (min (min (min (min left tooFar + 1) (min up tooFar + 1)) (min corner tooFar + cost))
        tooFar) (min before tooFar + 1)) tooFar =
      min (min (min (min (left + 1) (up + 1)) (corner + cost)) (before + 1)) tooFar := by
  refine cut_min ?_ (cut_add _ _ _)
  rw [min_assoc, min_self]
  exact cut_plain left up corner cost tooFar

/-- One cell follows from three before it, or from a fourth where two characters are each
other's. -/
theorem fill_cell {checks : Bool} {ca : Char} {i j : Nat} {before : List Nat}
    (small : a.length < 2 ^ 63) (small' : b.length < 2 ^ 63) (here : a[i]? = some ca)
    (there : j < b.length) (swaps : 0 < i → before = rowOf a b tooFar (i - 1)) :
    fill checks a b tooFar ca i
        ⟨before, rowOf a b tooFar i, partRow a b tooFar (i + 1) j⟩ j =
      some ⟨before, rowOf a b tooFar i, partRow a b tooFar (i + 1) (j + 1)⟩ := by
  have inside : i < a.length := (List.getElem?_eq_some_iff.mp here).1
  have cb := List.getElem?_eq_getElem there
  have left := table_sum a b (i + 1) j
  have up := table_sum a b i (j + 1)
  have corner := table_sum a b i j
  have cost : (if ca ≠ b[j] then 1 else 0) = if a[i]? = b[j]? then 0 else 1 := by
    rw [here, cb]
    by_cases same : ca = b[j]
    · rw [if_neg (not_not.mpr same), if_pos (congrArg some same)]
    · rw [if_pos same, if_neg fun equal => same (Option.some.inj equal)]
  have step : (if ca ≠ b[j] then 1 else 0) ≤ 1 := by split <;> omega
  unfold fill
  rw [cb, Option.bind_eq_bind, Option.bind_some]
  simp only [partRow_get (Nat.le_of_lt there) (le_refl j), rowOf_get (show j + 1 ≤ b.length from there),
    rowOf_get (Nat.le_of_lt there), Option.bind_eq_bind, Option.bind_some]
  rw [plus_eq (by omega), plus_eq (by omega), plus_eq (by omega)]
  have size := partRow_length a b tooFar (i + 1) j
  have row := @partRow_set a b tooFar (i + 1) j
  rw [table.eq_def a b (i + 1) (j + 1)] at row
  simp only at row
  simp only [Option.bind_some, size, if_pos (show j + 1 < b.length + 1 by omega)]
  by_cases crossed : 0 < i ∧ 0 < j ∧ b[j - 1]? = some ca ∧ a[i - 1]? = some b[j]
  · obtain ⟨after, after', first, second⟩ := crossed
    have corner' := table_sum a b (i - 1) (j - 1)
    rw [if_pos ⟨after, after', first, second⟩, swaps after,
      rowOf_get (show j - 1 ≤ b.length by omega), Option.bind_some, plus_eq (by omega)]
    rw [if_pos ⟨after, after', here.trans first.symm, second.trans cb.symm⟩, ← cost] at row
    rw [Option.bind_some, Option.pure_def, Option.bind_some, Option.pure_def, cut_swapped, row]
  · rw [if_neg crossed]
    rw [if_neg fun swapped => crossed ⟨swapped.1, swapped.2.1, swapped.2.2.1.symm.trans here,
      swapped.2.2.2.trans cb⟩, ← cost] at row
    rw [Option.bind_some, Option.pure_def, cut_plain, row]

/-- The cells of a band follow one after another. -/
theorem fill_cells {checks : Bool} {ca : Char} {i : Nat} {before : List Nat}
    (small : a.length < 2 ^ 63) (small' : b.length < 2 ^ 63) (here : a[i]? = some ca)
    (swaps : 0 < i → before = rowOf a b tooFar (i - 1)) (count first : Nat)
    (there : first + count ≤ b.length) :
    (List.range' first count).foldlM (fill checks a b tooFar ca i)
        ⟨before, rowOf a b tooFar i, partRow a b tooFar (i + 1) first⟩ =
      some ⟨before, rowOf a b tooFar i, partRow a b tooFar (i + 1) (first + count)⟩ := by
  induction count generalizing first with
  | zero => rfl
  | succ count ih =>
      rw [List.range'_succ, List.foldlM_cons,
        fill_cell small small' here (by omega) swaps, Option.bind_eq_bind, Option.bind_some,
        ih (first + 1) (by omega), Nat.add_right_comm, Nat.add_assoc]

variable {limit : Nat}

/-- The row that stands for a character is the row of the table. -/
theorem row_eq {checks : Bool} {ca : Char} {i : Nat} {before scratch : List Nat}
    (small : a.length < 2 ^ 63) (small' : b.length < 2 ^ 63) (near : absDiff a.length b.length ≤ limit)
    (here : a[i]? = some ca) (filled : b ≠ []) (sums : i + limit < 2 ^ 64)
    (swaps : 0 < i → before = rowOf a b (limit + 1) (i - 1)) (size : scratch.length = b.length + 1) :
    row checks a b limit (limit + 1) ca i ⟨before, rowOf a b (limit + 1) i, scratch⟩ =
      some (⟨before, rowOf a b (limit + 1) i, rowOf a b (limit + 1) (i + 1)⟩, i - limit,
        min (i + limit) (b.length - 1)) := by
  have inside : i < a.length := (List.getElem?_eq_some_iff.mp here).1
  have some_ : 0 < b.length := List.length_pos_iff.mpr filled
  unfold absDiff at near
  cases scratch with
  | nil => cases size
  | cons cell cells =>
      have ran := @fill_cells a b (limit + 1) checks ca i before small small' here swaps
        (min (i + limit) (b.length - 1) + 1 - (i - limit)) (i - limit) (by omega)
      rw [← partRow_reset (Nat.succ.inj size) fun k inside _ => by
          have gap := table_gap a b (i + 1) k
          omega] at ran
      have full := @partRow_full a b (limit + 1) (i + 1)
        (i - limit + (min (i + limit) (b.length - 1) + 1 - (i - limit))) fun k inside behind => by
          have gap := table_gap a b (i + 1) k
          omega
      unfold row
      rw [plus_eq sums]
      simp only [Option.bind_eq_bind, Option.bind_some]
      rw [ran, Option.bind_some, full]
      rfl

/-- Where the band is lost, the whole row is too far. -/
theorem lost_eq {i : Nat} (near : absDiff a.length b.length ≤ limit) (inside : i < a.length)
    (filled : b ≠ []) :
    ∃ answer, lost (limit + 1) (rowOf a b (limit + 1) (i + 1)) (i - limit)
        (min (i + limit) (b.length - 1)) = some answer ∧
      (answer = true → limit < i + 1 ∧ ∀ j ≤ b.length, limit + 1 ≤ table a b (i + 1) j) := by
  have some_ : 0 < b.length := List.length_pos_iff.mpr filled
  unfold absDiff at near
  unfold lost
  rw [if_pos ⟨by omega, by rw [rowOf_length]; omega⟩]
  refine ⟨_, rfl, fun all => ?_⟩
  rw [Bool.and_eq_true, List.all_eq_true] at all
  obtain ⟨band, head⟩ := all
  rw [List.head?_eq_getElem?, rowOf_get (Nat.zero_le _), Option.any_some, table_left,
    decide_eq_true_eq] at head
  refine ⟨by omega, fun j inside' => ?_⟩
  have gap := table_gap a b (i + 1) j
  by_cases within_ : i - limit ≤ j ∧ j < min (i + limit) (b.length - 1) + 2
  · have there := band (min (table a b (i + 1) j) (limit + 1))
      (List.mem_iff_getElem?.mpr ⟨j - (i - limit), by
        rw [List.getElem?_drop, Nat.add_sub_of_le within_.1, List.getElem?_take_of_lt within_.2,
          rowOf_get inside']⟩)
    rw [decide_eq_true_eq] at there
    omega
  · omega

/-- A row too far makes every later row too far. -/
theorem far_after {i : Nat} (far : ∀ j ≤ b.length, limit + 1 ≤ table a b i j) (k : Nat) :
    ∀ j ≤ b.length, limit + 1 ≤ table a b (i + k) j := by
  induction k with
  | zero => exact far
  | succ k ih => exact table_row ih

/-- The sweep ends with the last row, or nothing where a row was too far. -/
theorem sweep_eq {checks : Bool} (small : a.length < 2 ^ 63) (small' : b.length < 2 ^ 63)
    (near : absDiff a.length b.length ≤ limit) (filled : b ≠ [])
    (sums : limit + (a.length - 1) < 2 ^ 64) {rest : Text} {i : Nat} {before scratch : List Nat}
    (left : a.drop i = rest) (under : i ≤ a.length)
    (swaps : 0 < i → before = rowOf a b (limit + 1) (i - 1)) (size : scratch.length = b.length + 1)
    (size' : before.length = b.length + 1) :
    sweep checks a b limit (limit + 1) rest i ⟨before, rowOf a b (limit + 1) i, scratch⟩ =
        some (some (rowOf a b (limit + 1) a.length)) ∨
      sweep checks a b limit (limit + 1) rest i ⟨before, rowOf a b (limit + 1) i, scratch⟩ =
        some none ∧ ∀ j ≤ b.length, limit + 1 ≤ table a b a.length j := by
  induction rest generalizing i before scratch with
  | nil =>
      have ended : i = a.length := by
        have none_ := List.drop_eq_nil_iff.mp left
        omega
      left
      rw [sweep, ended]
  | cons ca rest ih =>
      have here : a[i]? = some ca := by
        rw [← List.head?_drop, left, List.head?_cons]
      have inside : i < a.length := (List.getElem?_eq_some_iff.mp here).1
      have after : a.drop (i + 1) = rest := by
        rw [← List.tail_drop, left, List.tail_cons]
      obtain ⟨answer, lost, far⟩ := lost_eq near inside filled
      rw [sweep, row_eq small small' near here filled (by omega) swaps size, Option.bind_eq_bind,
        Option.bind_some]
      simp only
      rw [lost, Option.bind_eq_bind, Option.bind_some]
      cases answer with
      | true =>
          right
          refine ⟨rfl, ?_⟩
          have last := far_after (far rfl).2 (a.length - (i + 1))
          rwa [Nat.add_sub_of_le inside] at last
      | false => exact ih after inside (fun _ => rfl) size' (rowOf_length a b _ _)

/-- Where the build checks sums, the sweep panics at the row whose band has no end. -/
theorem sweep_panics (small : a.length < 2 ^ 63) (small' : b.length < 2 ^ 63)
    (near : absDiff a.length b.length ≤ limit) (filled : b ≠ [])
    (large : 2 ^ 64 ≤ limit + (a.length - 1)) {rest : Text} {i : Nat} {before scratch : List Nat}
    (left : a.drop i = rest) (inside : i < a.length)  (under : i + limit ≤ 2 ^ 64)
    (swaps : 0 < i → before = rowOf a b (limit + 1) (i - 1)) (size : scratch.length = b.length + 1)
    (size' : before.length = b.length + 1) :
    sweep true a b limit (limit + 1) rest i ⟨before, rowOf a b (limit + 1) i, scratch⟩ = none := by
  induction rest generalizing i before scratch with
  | nil =>
      have none_ := List.drop_eq_nil_iff.mp left
      omega
  | cons ca rest ih =>
      have here : a[i]? = some ca := by
        rw [← List.head?_drop, left, List.head?_cons]
      have after : a.drop (i + 1) = rest := by
        rw [← List.tail_drop, left, List.tail_cons]
      by_cases ended : i + limit = 2 ^ 64
      · rw [sweep, row, plus_panics ended.ge]
        rfl
      · obtain ⟨answer, lost, far⟩ := lost_eq near inside filled
        rw [sweep, row_eq small small' near here filled (by omega) swaps size, Option.bind_eq_bind,
          Option.bind_some]
        simp only
        rw [lost, Option.bind_eq_bind, Option.bind_some]
        cases answer with
        | true =>
            have short := (far rfl).1
            omega
        | false => exact ih after (by omega) (by omega) (fun _ => rfl) size' (rowOf_length a b _ _)

end Rows

/-! ## The distance -/

/-- The sums of the band are sizes. -/
def Sums (a b : Text) (limit : Nat) : Prop :=
  absDiff a.length b.length ≤ limit → a ≠ [] →
    limit + 1 < 2 ^ 64 ∧ (b ≠ [] → limit + (a.length - 1) < 2 ^ 64)

section Distance

variable {a b : Text} {limit : Nat}

theorem distance_iff {distance : Nat} :
    IsDistance a b distance ↔ table a b a.length b.length = distance :=
  ⟨fun least => least.unique (table_isDistance a b), fun same => same ▸ table_isDistance a b⟩

/-- A cell cut off at the limit says the distance where it is within the limit. -/
theorem within_iff {cell distance : Nat}
    (cut : min cell (limit + 1) = min (table a b a.length b.length) (limit + 1)) :
    within limit cell = some distance ↔ IsDistance a b distance ∧ distance ≤ limit := by
  rw [distance_iff, within]
  split
  · rw [Option.some.injEq]
    omega
  · refine ⟨fun never => absurd never.symm (Option.some_ne_none _), fun same => ?_⟩
    omega

theorem start_eq : (List.range (b.length + 1)).map (min · (limit + 1)) =
    rowOf a b (limit + 1) 0 := by
  refine List.map_congr_left fun j _ => ?_
  rw [table_zero]

/-- The band answers what the full table answers. -/
theorem bands_of_sums {checks : Bool} (small : a.length < 2 ^ 63) (small' : b.length < 2 ^ 63)
    (sums : Sums a b limit) : Bands checks a b limit := by
  have gap := table_gap a b a.length b.length
  unfold Bands editDistanceWithin
  by_cases far : limit < absDiff a.length b.length
  · refine ⟨none, if_pos far, fun distance => ⟨fun never => (nomatch never), fun same => ?_⟩⟩
    rw [distance_iff] at same
    unfold absDiff at far
    omega
  · rw [if_neg far]
    by_cases empty : a = []
    · refine ⟨_, if_pos empty, fun distance => within_iff ?_⟩
      rw [empty, List.length_nil, table_zero]
    · obtain ⟨one, band⟩ := sums (Nat.le_of_not_lt far) empty
      rw [if_neg empty, plus_eq one, Option.bind_eq_bind, Option.bind_some]
      by_cases empty' : b = []
      · refine ⟨_, if_pos empty', fun distance => within_iff ?_⟩
        rw [empty', List.length_nil, table_left]
      · rw [if_neg empty']
        simp only
        rw [start_eq (a := a)]
        have swept := @sweep_eq a b limit checks small small' (Nat.le_of_not_lt far)
          empty' (band empty') _ _ (List.replicate (b.length + 1) (limit + 1))
          (List.replicate (b.length + 1) (limit + 1)) (List.drop_zero) (Nat.zero_le _)
          (fun never => absurd never (lt_irrefl 0)) List.length_replicate List.length_replicate
        rcases swept with ended | ⟨ended, beyond⟩
        · rw [ended, Option.bind_eq_bind, Option.bind_some]
          simp only
          rw [rowOf_get (le_refl _), Option.bind_some]
          exact ⟨_, rfl, fun distance => within_iff (by omega)⟩
        · rw [ended]
          refine ⟨none, rfl, fun distance => ⟨fun never => (nomatch never), fun same => ?_⟩⟩
          have last := beyond b.length (le_refl _)
          rw [distance_iff] at same
          omega

theorem sums_of_bands (small : a.length < 2 ^ 63) (small' : b.length < 2 ^ 63)
    (bands : Bands true a b limit) : Sums a b limit := by
  intro near filled
  obtain ⟨answer, ran, -⟩ := bands
  unfold editDistanceWithin at ran
  rw [if_neg (Nat.not_lt_of_le near), if_neg filled] at ran
  have one : limit + 1 < 2 ^ 64 := by
    by_contra large
    rw [plus_panics (Nat.le_of_not_lt large)] at ran
    cases ran
  refine ⟨one, fun filled' => ?_⟩
  by_contra large
  rw [plus_eq one, Option.bind_eq_bind, Option.bind_some, if_neg filled'] at ran
  simp only at ran
  rw [start_eq (a := a), sweep_panics small small' near filled' (Nat.le_of_not_lt large)
    List.drop_zero (List.length_pos_iff.mpr filled) (by omega)
    (fun never => absurd never (lt_irrefl 0)) List.length_replicate List.length_replicate] at ran
  cases ran

end Distance

/-! ## The best candidate -/

/-- How near a candidate is, where that is within the threshold. -/
def nearness (name candidate : Text) : Option Nat :=
  within (threshold name) (table name candidate name.length candidate.length)

theorem nearness_iff {name candidate : Text} {distance : Nat} :
    nearness name candidate = some distance ↔
      IsDistance name candidate distance ∧ distance ≤ threshold name := within_iff rfl

/-- What a candidate makes of the best so far. -/
def meets (name : Text) (state : Best) (candidate : Text) : Best :=
  match nearness name candidate with
  | none => state
  | some distance => state.meet distance candidate

theorem look_eq {checks : Bool} {name candidate : Text} (small : name.length < 2 ^ 63)
    (small' : candidate.length < 2 ^ 63) (state : Best) :
    look checks name state candidate = some (meets name state candidate) := by
  have sums : Sums name candidate (threshold name) := by
    intro near filled
    unfold threshold
    exact ⟨by omega, fun _ => by omega⟩
  obtain ⟨answer, ran, right⟩ :=
    @bands_of_sums name candidate (threshold name) checks small small' sums
  have same : answer = nearness name candidate :=
    Option.ext fun distance => (right distance).trans nearness_iff.symm
  unfold look meets
  split
  · rename_i far
    have none_ : nearness name candidate = none := by
      have gap := table_gap name candidate name.length candidate.length
      unfold absDiff at far
      rw [nearness, within, if_neg (by omega)]
    rw [none_]
    rfl
  · rw [ran, same, Option.bind_eq_bind, Option.bind_some]
    cases nearness name candidate <;> rfl

/-- What the best so far says of the candidates seen. -/
inductive Found (name : Text) (seen : List Text) : Best → Prop where
  | none : (∀ candidate ∈ seen, nearness name candidate = none) → Found name seen ⟨none, false⟩
  | some {distance : Nat} {candidate : Text} {others : List Text} {ambiguous : Bool} :
      (∀ other ∈ seen, ∀ further, nearness name other = some further → distance ≤ further) →
      seen.filter (nearness name · = some distance) = candidate :: others →
      (ambiguous = true ↔ others ≠ []) → Found name seen ⟨some (distance, candidate), ambiguous⟩

variable {name : Text}

theorem filter_concat_of {seen : List Text} {candidate : Text} {distance : Nat}
    (there : nearness name candidate = some distance) :
    (seen ++ [candidate]).filter (nearness name · = some distance) =
      seen.filter (nearness name · = some distance) ++ [candidate] := by
  rw [List.filter_append, List.filter_singleton, decide_eq_true there]
  rfl

theorem filter_concat_ne {seen : List Text} {candidate : Text} {distance : Nat}
    (other : nearness name candidate ≠ some distance) :
    (seen ++ [candidate]).filter (nearness name · = some distance) =
      seen.filter (nearness name · = some distance) := by
  rw [List.filter_append, List.filter_singleton, decide_eq_false other]
  exact List.append_nil _

theorem found_step {seen : List Text} {state : Best} {candidate : Text}
    (found : Found name seen state) :
    Found name (seen ++ [candidate]) (meets name state candidate) := by
  unfold meets
  cases near : nearness name candidate with
  | none =>
      simp only
      cases found with
      | none nobody =>
          refine .none fun other there => ?_
          rcases List.mem_append.mp there with there | there
          · exact nobody other there
          · rwa [List.mem_singleton.mp there]
      | some least same ambiguous =>
          refine .some (fun other there further is_ => ?_)
            ((filter_concat_ne (by rw [near]; exact fun never => nomatch never)).trans same)
            ambiguous
          rcases List.mem_append.mp there with there | there
          · exact least other there further is_
          · rw [List.mem_singleton.mp there, near] at is_
            cases is_
  | some distance =>
      simp only
      cases found with
      | none nobody =>
          refine @Found.some name _ _ _ [] _ (fun other there further is_ => ?_) ?_ (by decide)
          · rcases List.mem_append.mp there with there | there
            · rw [nobody other there] at is_
              cases is_
            · rw [List.mem_singleton.mp there, near] at is_
              exact (Option.some.inj is_).le
          · rw [filter_concat_of near]
            have nobody' : seen.filter (nearness name · = some distance) = [] :=
              List.filter_eq_nil_iff.mpr fun other there => by
                rw [nobody other there, decide_eq_true_eq]
                exact fun never => nomatch never
            rw [nobody']
            rfl
      | @some best first others ambiguous least same ambiguous_iff =>
          unfold Best.meet
          simp only
          by_cases nearer : distance < best
          · rw [if_pos nearer]
            refine @Found.some name _ _ _ [] _ (fun other there further is_ => ?_) ?_ (by decide)
            · rcases List.mem_append.mp there with there | there
              · exact nearer.le.trans (least other there further is_)
              · rw [List.mem_singleton.mp there, near] at is_
                exact (Option.some.inj is_).le
            · rw [filter_concat_of near]
              have nobody : seen.filter (nearness name · = some distance) = [] :=
                List.filter_eq_nil_iff.mpr fun other there is_ =>
                  absurd (least other there distance (of_decide_eq_true is_))
                    (Nat.not_le_of_lt nearer)
              rw [nobody]
              rfl
          · rw [if_neg nearer]
            have least' : ∀ other ∈ seen ++ [candidate], ∀ further,
                nearness name other = some further → best ≤ further := by
              intro other there further is_
              rcases List.mem_append.mp there with there | there
              · exact least other there further is_
              · rw [List.mem_singleton.mp there, near] at is_
                exact (Option.some.inj is_) ▸ Nat.le_of_not_lt nearer
            by_cases equal : distance = best
            · subst equal
              rw [if_pos rfl]
              refine @Found.some name _ _ _ (others ++ [candidate]) _ least' ?_ ?_
              · rw [filter_concat_of near, same]
                rfl
              · exact ⟨fun _ => List.concat_ne_nil _ _, fun _ => rfl⟩
            · rw [if_neg equal]
              refine .some least' ((filter_concat_ne ?_).trans same) ambiguous_iff
              rw [near]
              exact fun same => equal (Option.some.inj same)

theorem found_all {checks : Bool} (small : name.length < 2 ^ 63) {rest seen : List Text}
    (small' : ∀ candidate ∈ rest, candidate.length < 2 ^ 63) {state : Best}
    (found : Found name seen state) :
    ∃ final, rest.foldlM (look checks name) state = some final ∧
      Found name (seen ++ rest) final := by
  induction rest generalizing seen state with
  | nil => exact ⟨state, rfl, by rwa [List.append_nil]⟩
  | cons candidate rest ih =>
      rw [List.forall_mem_cons] at small'
      obtain ⟨final, ran, found'⟩ := ih small'.2 (@found_step name seen state candidate found)
      rw [List.append_assoc] at found'
      refine ⟨final, ?_, found'⟩
      rw [List.foldlM_cons, look_eq small small'.1, Option.bind_eq_bind, Option.bind_some, ran]

section Candidates

variable {candidates : List Text}

theorem nearest_nearness {candidate : Text} (nearest : Nearest name candidates candidate) :
    ∃ distance, nearness name candidate = some distance :=
  nearest.2.imp fun _ near => nearness_iff.mpr ⟨near.1, near.2.1⟩

/-- The nearest candidates are those at the best distance. -/
theorem nearest_iff_mem {distance : Nat} {best : Text} {others : List Text}
    (least : ∀ other ∈ candidates, ∀ further, nearness name other = some further →
      distance ≤ further)
    (same : candidates.filter (nearness name · = some distance) = best :: others)
    (candidate : Text) : Nearest name candidates candidate ↔ candidate ∈ best :: others := by
  rw [← same, List.mem_filter, decide_eq_true_eq]
  constructor
  · rintro ⟨there, at_, near, within_, first⟩
    refine ⟨there, ?_⟩
    have best_ : best ∈ candidates.filter (nearness name · = some distance) := by
      rw [same]
      exact List.mem_cons_self
    rw [List.mem_filter, decide_eq_true_eq] at best_
    have after := first best best_.1 distance (nearness_iff.mp best_.2).1
    have found := nearness_iff.mpr ⟨near, within_⟩
    rwa [Nat.le_antisymm after (least candidate there at_ found)] at found
  · rintro ⟨there, near⟩
    obtain ⟨is_, within_⟩ := nearness_iff.mp near
    refine ⟨there, distance, is_, within_, fun other there further far => ?_⟩
    rcases Nat.lt_or_ge (threshold name) further with beyond | inside
    · exact within_.trans beyond.le
    · exact least other there further (nearness_iff.mpr ⟨far, inside⟩)

/-- What is answered is the one nearest candidate where it is listed once. -/
theorem answer_iff {state : Best} (found : Found name candidates state) (candidate : Text) :
    (state.best.bind fun best => if state.ambiguous then none else some best.2) = some candidate ↔
      Alone name candidates candidate ∧ candidates.count candidate = 1 := by
  cases found with
  | none nobody =>
      refine ⟨fun never => (nomatch never), fun alone => ?_⟩
      obtain ⟨distance, near⟩ := nearest_nearness alone.1.1
      rw [nobody candidate alone.1.1.1] at near
      cases near
  | @some distance best others ambiguous least same ambiguous_iff =>
      have nearest := nearest_iff_mem least same
      have counted : candidate ∈ best :: others →
          candidates.count candidate = (best :: others).count candidate := by
        intro there
        rw [← same] at there ⊢
        have chosen := (List.mem_filter.mp there).2
        exact (List.count_filter (p := (nearness name · = some distance)) chosen).symm
      have single : (if ambiguous then none else some best) = some candidate ↔
          others = [] ∧ best = candidate := by
        cases ambiguous with
        | true =>
            refine ⟨fun never => (nomatch never), fun alone => ?_⟩
            exact absurd alone.1 (ambiguous_iff.mp rfl)
        | false =>
            have none_ : others = [] := by
              by_contra more
              exact Bool.false_ne_true (ambiguous_iff.mpr more)
            refine ⟨fun is_ => ⟨none_, Option.some.inj is_⟩, fun is_ => congrArg some is_.2⟩
      rw [Option.bind_some, single]
      constructor
      · rintro ⟨rfl, rfl⟩
        refine ⟨⟨(nearest best).mpr (List.mem_singleton_self _), fun other near =>
          List.mem_singleton.mp ((nearest other).mp near)⟩, ?_⟩
        rw [counted (List.mem_singleton_self _), List.count_singleton_self]
      · rintro ⟨⟨near, alone⟩, once⟩
        have all : ∀ other ∈ best :: others, candidate = other := fun other there =>
          (alone other ((nearest other).mpr there)).symm
        rw [counted ((nearest candidate).mp near), List.count_eq_length.mpr all] at once
        exact ⟨List.length_eq_zero_iff.mp (Nat.succ.inj once),
          (all best List.mem_cons_self).symm⟩

/-- The nearest candidate is answered where it is not listed twice. -/
theorem suggests_iff {checks : Bool} (small : name.length < 2 ^ 63)
    (small' : ∀ candidate ∈ candidates, candidate.length < 2 ^ 63) :
    Suggests checks name candidates ↔
      ∀ candidate, Alone name candidates candidate → candidates.count candidate = 1 := by
  obtain ⟨final, ran, found⟩ := @found_all name checks small candidates [] small' ⟨none, false⟩
    (.none fun _ never => nomatch never)
  have answer := answer_iff found
  have closed : closest checks name candidates = some
      (final.best.bind fun best => if final.ambiguous then none else some best.2) := by
    rw [closest, ran]
    rfl
  constructor
  · rintro ⟨answer', same, right⟩ candidate alone
    rw [closed] at same
    exact ((answer candidate).mp ((Option.some.inj same).trans ((right candidate).mpr alone))).2
  · intro once
    exact ⟨_, closed, fun candidate => (answer candidate).trans
      ⟨fun both => both.1, fun alone => ⟨alone, once candidate alone⟩⟩⟩

end Candidates

/-- The distance is right exactly where the sums of the band are sizes, and the suggestion where
the candidate nearer than every other is listed once. -/
theorem nearest_name_iff (a b name : Text) (limit : Nat) (candidates : List Text)
    (small : ∀ text ∈ a :: b :: name :: candidates, text.length < 2 ^ 63) :
    (Bands true a b limit ↔ Sums a b limit) ∧ (Sums a b limit → Bands false a b limit) ∧
      ∀ checks, Suggests checks name candidates ↔
        ∀ candidate, Alone name candidates candidate → candidates.count candidate = 1 := by
  simp only [List.forall_mem_cons] at small
  obtain ⟨small, small', small_name, smalls⟩ := small
  exact ⟨⟨sums_of_bands small small', bands_of_sums small small'⟩, bands_of_sums small small',
    fun checks => suggests_iff small_name smalls⟩

theorem nearest_name_total : (Bands true "totla".toList "total".toList 1 ↔
      Sums "totla".toList "total".toList 1) ∧
    (Sums "totla".toList "total".toList 1 → Bands false "totla".toList "total".toList 1) ∧
      ∀ checks, Suggests checks "totla".toList ["total".toList] ↔
        ∀ candidate, Alone "totla".toList ["total".toList] candidate →
          ["total".toList].count candidate = 1 :=
  nearest_name_iff _ _ _ 1 _ (by decide)

/-- A name that stands in two scopes is not suggested, and the largest limit has no successor. -/
theorem same_name_twice : ¬Suggests true "totla".toList ["total".toList, "total".toList] ∧
    ¬Suggests false "totla".toList ["total".toList, "total".toList] ∧
    ¬Bands true "a".toList "b".toList (2 ^ 64 - 1) := by
  have sums : Sums "totla".toList "total".toList 1 := fun _ _ => ⟨by decide, fun _ => by decide⟩
  have near : IsDistance "totla".toList "total".toList 1 := by
    obtain ⟨answer, ran, right⟩ := @bands_of_sums _ _ 1 true (by decide) (by decide) sums
    have one : editDistanceWithin true "totla".toList "total".toList 1 = some (some 1) := by decide
    exact ((right 1).mp (Option.some.inj (ran.symm.trans one))).1
  have alone : Alone "totla".toList ["total".toList, "total".toList] "total".toList := by
    refine ⟨⟨List.mem_cons_self, 1, near, by decide, ?_⟩, ?_⟩
    · intro other there further far
      have same : other = "total".toList := by simpa using there
      rw [same] at far
      exact (near.unique far).ge
    · intro other nearest
      simpa using nearest.1
  have twice (checks : Bool) :
      ¬Suggests checks "totla".toList ["total".toList, "total".toList] := by
    intro suggests
    have once := (suggests_iff (by decide) (by decide)).mp suggests _ alone
    exact absurd once (by decide)
  refine ⟨twice true, twice false, fun bands => ?_⟩
  have sums := sums_of_bands (by decide) (by decide) bands (by decide) (by decide)
  exact absurd sums.1 (by decide)

end Deed.Resolve.Names
