import Deed.Stdlib.Sorting
import Deed.Stdlib.SlicesSound

/-!
# The shipped sort puts in order

For an order that is a strict weak one, `sort` rearranges a list so that no element is before
an earlier one.  Of several elements that the order does not tell apart, the one that came
first ends up last, and it is the one that `largest` answers.
-/

namespace Deed.Stdlib

variable {α : Type*}

/-- A strict weak order: what it does not tell apart is as good as the same to it. -/
structure StrictWeak (before : α → α → Bool) : Prop where
  irrefl : ∀ a, before a a = false
  trans : ∀ a b c, before a b = true → before b c = true → before a c = true
  apart : ∀ a b c, before a b = false → before b a = false → before b c = false →
    before c b = false → before a c = false ∧ before c a = false

namespace StrictWeak

variable {before : α → α → Bool} {a b c : α}

theorem asymm (weak : StrictWeak before) (less : before a b = true) : before b a = false := by
  by_contra back
  rw [Bool.not_eq_false] at back
  have around := weak.trans a b a less back
  rw [weak.irrefl a] at around
  exact Bool.false_ne_true around

/-- What is before something is before anything that is not before that. -/
theorem lt_of_lt_of_not_lt (weak : StrictWeak before) (less : before a b = true)
    (bound : before c b = false) : before a c = true := by
  by_contra further
  rw [Bool.not_eq_true] at further
  cases back : before c a with
  | true =>
      have through := weak.trans c a b back less
      rw [bound] at through
      exact Bool.false_ne_true through
  | false =>
      cases beyond : before b c with
      | true =>
          have through := weak.trans a b c less beyond
          rw [further] at through
          exact Bool.false_ne_true through
      | false =>
          have told := (weak.apart a c b further back bound beyond).1
          rw [told] at less
          exact Bool.false_ne_true less

end StrictWeak

variable {before : α → α → Bool}

/-! ## One insertion -/

theorem partition_eq (items : List α) (keep : α → Bool) :
    partition items keep = ⟨items.filter keep, items.filter fun item => !keep item⟩ := by
  have walk : ∀ (items : List α) (parts : Parts α),
      items.foldl
        (fun parts item =>
          if keep item then { kept := push parts.kept item, rest := parts.rest }
          else { kept := parts.kept, rest := push parts.rest item }) parts =
        (⟨parts.kept ++ items.filter keep, parts.rest ++ items.filter fun item => !keep item⟩ :
          Parts α) := by
    intro items
    induction items with
    | nil =>
        intro parts
        rw [List.filter_nil, List.filter_nil, List.append_nil, List.append_nil]
        rfl
    | cons item items ih =>
        intro parts
        rw [List.foldl_cons, ih]
        cases held : keep item with
        | true => simp [held, push]
        | false => simp [held, push]
  rw [partition, walk]
  rfl

/-- A sorted list with one more element in its place. -/
def inserted (before : α → α → Bool) (sorted : List α) (item : α) : List α :=
  sorted.filter (fun existing => before existing item) ++
    item :: sorted.filter fun existing => !before existing item

theorem sort_eq (items : List α) :
    sort items before = items.foldl (inserted before) [] := by
  have turn : (fun (sorted : List α) item =>
      let parts := partition sorted fun existing => before existing item
      concat (push parts.kept item) parts.rest) = inserted before := by
    funext sorted item
    show concat (push (partition sorted _).kept item) (partition sorted _).rest = _
    rw [partition_eq, concat_eq, push, List.append_assoc]
    rfl
  rw [sort, turn]

/-- No element is before an earlier one. -/
def Sorted (before : α → α → Bool) (items : List α) : Prop :=
  items.Pairwise fun earlier later => before later earlier = false

theorem inserted_perm (sorted : List α) (item : α) :
    (inserted before sorted item).Perm (item :: sorted) := by
  apply List.perm_middle.trans
  apply List.Perm.cons
  exact List.filter_append_perm (fun existing => before existing item) sorted

theorem inserted_sorted (weak : StrictWeak before) {sorted : List α} (order : Sorted before sorted)
    (item : α) : Sorted before (inserted before sorted item) := by
  have kept : ∀ existing ∈ sorted.filter (fun existing => before existing item),
      before existing item = true := fun existing mem => (List.mem_filter.1 mem).2
  have left : ∀ existing ∈ sorted.filter (fun existing => !before existing item),
      before existing item = false := by
    intro existing mem
    have held := (List.mem_filter.1 mem).2
    rw [Bool.not_eq_true'] at held
    exact held
  apply List.pairwise_append.2
  refine ⟨order.filter _, List.pairwise_cons.2 ⟨left, order.filter _⟩, ?_⟩
  intro earlier among later mem
  rcases List.mem_cons.1 mem with rfl | among'
  · exact weak.asymm (kept earlier among)
  · by_contra less
    rw [Bool.not_eq_false] at less
    have through := weak.trans later earlier item less (kept earlier among)
    rw [left later among'] at through
    exact Bool.false_ne_true through

/-! ## The whole walk -/

theorem sort_append (items : List α) (item : α) :
    sort (items ++ [item]) before = inserted before (sort items before) item := by
  rw [sort_eq, sort_eq, List.foldl_append]
  rfl

theorem sort_perm (items : List α) : (sort items before).Perm items := by
  induction items using List.reverseRecOn with
  | nil => exact List.Perm.refl _
  | append_singleton items item ih =>
      rw [sort_append]
      exact ((inserted_perm _ item).trans (ih.cons item)).trans (List.perm_append_singleton _ _).symm

theorem sort_sorted (weak : StrictWeak before) (items : List α) :
    Sorted before (sort items before) := by
  induction items using List.reverseRecOn with
  | nil => exact List.Pairwise.nil
  | append_singleton items item ih =>
      rw [sort_append]
      exact inserted_sorted weak ih item

/-- Whether the last element of a sorted list moves up depends on it alone. -/
theorem getLast?_inserted (weak : StrictWeak before) {sorted : List α} {top : α}
    (order : Sorted before (sorted ++ [top])) (item : α) :
    (inserted before (sorted ++ [top]) item).getLast? =
      some (if before top item then item else top) := by
  cases less : before top item with
  | true =>
      -- Everything is kept in front of the item.
      have none : (sorted ++ [top]).filter (fun existing => !before existing item) = [] := by
        rw [List.filter_eq_nil_iff]
        intro existing mem
        have held : before existing item = true := by
          rcases List.mem_append.1 mem with earlier | same
          · have bound := (List.pairwise_append.1 order).2.2 existing earlier top
              List.mem_cons_self
            by_contra further
            rw [Bool.not_eq_true] at further
            have through := weak.lt_of_lt_of_not_lt less further
            rw [bound] at through
            exact Bool.false_ne_true through
          · rw [List.mem_singleton.1 same]
            exact less
        rw [held]
        exact Bool.false_ne_true
      rw [inserted, none, List.getLast?_concat, if_pos rfl]
  | false =>
      have last : (sorted ++ [top]).filter (fun existing => !before existing item) =
          sorted.filter (fun existing => !before existing item) ++ [top] := by
        rw [List.filter_append, List.filter_singleton, less]
        rfl
      rw [inserted, last, if_neg Bool.false_ne_true, ← List.cons_append, ← List.append_assoc,
        List.getLast?_concat]

theorem largest_append {items : List α} {top : α} (best : largest items before = .ok top)
    (item : α) :
    largest (items ++ [item]) before = .ok (if before top item then item else top) := by
  rw [largest] at best ⊢
  rw [List.foldl_append, best, List.foldl_cons, List.foldl_nil]
  exact (apply_ite Except.ok _ item top).symm

/-- The last of a sorted list is the largest. -/
theorem getLast?_sort (weak : StrictWeak before) {items : List α} (some_ : items ≠ []) :
    ∃ top, (sort items before).getLast? = some top ∧ largest items before = .ok top := by
  induction items using List.reverseRecOn with
  | nil => exact absurd rfl some_
  | append_singleton items item ih =>
      rw [sort_append]
      by_cases none : items = []
      · subst none
        exact ⟨item, rfl, rfl⟩
      · obtain ⟨top, found, best⟩ := ih none
        obtain ⟨sorted, whole⟩ := List.getLast?_eq_some_iff.1 found
        have order := sort_sorted weak items
        rw [whole] at order
        refine ⟨if before top item then item else top, ?_, largest_append best item⟩
        rw [whole]
        exact getLast?_inserted weak order item

theorem last_eq {items : List α} {top : α} (countable : items.length < 2 ^ 63)
    (found : items.getLast? = some top) : last items = some (.ok top) := by
  obtain ⟨front, rfl⟩ := List.getLast?_eq_some_iff.1 found
  rw [List.length_append, List.length_singleton] at countable
  have count : (length (front ++ [top])).toInt = front.length + 1 := by
    rw [toInt_length (by rw [List.length_append]; exact countable), List.length_append,
      List.length_singleton, Nat.cast_add, Nat.cast_one]
  have place : minus (length (front ++ [top])) 1 = some (Int64.ofNat front.length) := by
    rw [minus, checked_eq_some, count, Int64.toInt_ofNat_of_lt (by omega)]
    show (front.length : Int) = front.length + 1 - 1
    omega
  have index : (Int64.ofNat front.length).toInt = front.length :=
    Int64.toInt_ofNat_of_lt (by omega)
  have positive : 0 ≤ Int64.ofNat front.length := by
    rw [Int64.le_iff_toInt_le, index]
    exact Int.natCast_nonneg _
  rw [last, place, Option.map_some, elementAt, if_pos positive, index, Int.toNat_natCast,
    List.getElem?_concat_length]

/-- `sort` rearranges a list into the order, and `last` answers of it what `largest` does of
the list. -/
theorem sort_right (weak : StrictWeak before) {items : List α}
    (countable : items.length < 2 ^ 63) :
    (sort items before).Perm items ∧ Sorted before (sort items before) ∧
      (items ≠ [] → last (sort items before) = some (largest items before)) := by
  refine ⟨sort_perm items, sort_sorted weak items, ?_⟩
  intro some_
  obtain ⟨top, found, best⟩ := getLast?_sort weak some_
  rw [best]
  exact last_eq (by rw [(sort_perm items).length_eq]; exact countable) found

/-- Words by their length: two of them are equivalent without being equal. -/
theorem sort_right_words :
    let shorter := fun left right : String => decide (left.length < right.length)
    (sort ["bb", "a", "cc"] shorter).Perm ["bb", "a", "cc"] ∧
      Sorted shorter (sort ["bb", "a", "cc"] shorter) ∧
      (["bb", "a", "cc"] ≠ [] →
        last (sort ["bb", "a", "cc"] shorter) = some (largest ["bb", "a", "cc"] shorter)) := by
  apply sort_right
  · constructor
    · intro a
      exact decide_eq_false (Nat.lt_irrefl _)
    · intro a b c less less'
      rw [decide_eq_true_eq] at less less' ⊢
      exact Nat.lt_trans less less'
    · intro a b c
      simp only [decide_eq_false_iff_not]
      omega
  · decide

end Deed.Stdlib
