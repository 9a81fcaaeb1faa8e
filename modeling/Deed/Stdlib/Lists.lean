import Deed.Stdlib.Ints

/-!
# Lists of shipped code

The operations on lists that the language itself provides, as shipped code uses them, and the
walks that are written with them.
-/

namespace Deed.Stdlib

variable {α σ : Type*}

/-- `length`. -/
def length (items : List α) : Int64 := Int64.ofNat items.length

/-- `at`, which says so where there is no such element. -/
def elementAt (items : List α) (index : Int64) : Except String α :=
  match if 0 ≤ index then items[index.toInt.toNat]? else none with
  | some value => .ok value
  | none =>
      .error ("index " ++ toString index.toInt ++ " is outside a list of " ++
        toString items.length)

/-- `push`. -/
def push (items : List α) (item : α) : List α := items ++ [item]

/-- `repeat`, which makes an empty list of a count below zero. -/
def repeated (item : α) (count : Int64) : List α := List.replicate count.toInt.toNat item

/-- A `for` with a condition, which is read before each turn. -/
def walkWhile (holds : σ → Bool) (turn : σ → α → σ) : List α → σ → σ
  | [], state => state
  | item :: items, state =>
      if holds state then walkWhile holds turn items (turn state item) else state

/-- The same walk where a turn may stop the run. -/
def walkWhileM (holds : σ → Bool) (turn : σ → α → Option σ) : List α → σ → Option σ
  | [], state => some state
  | item :: items, state =>
      if holds state then (turn state item).bind (walkWhileM holds turn items) else some state

/-- The numbers from zero up to a count: each is how long the list was before it. -/
def range (count : Int64) : List Int64 :=
  (repeated (0 : Int64) count).foldl (fun out _ => push out (length out)) []

/-- One list after another. -/
def concat (left right : List α) : List α :=
  right.foldl (fun out item => push out item) left

/-- A walk that pushes what it makes of each item. -/
theorem foldl_push {β : Type*} (make : α → β) (items : List α) (start : List β) :
    items.foldl (fun out item => push out (make item)) start = start ++ items.map make := by
  induction items generalizing start with
  | nil => rw [List.map_nil, List.append_nil]; rfl
  | cons item items ih =>
      rw [List.foldl_cons, ih, push, List.append_assoc, List.map_cons, List.singleton_append]

theorem concat_eq (left right : List α) : concat left right = left ++ right := by
  rw [concat, foldl_push, List.map_id']

theorem range_eq (count : Int64) :
    range count = (List.range count.toInt.toNat).map Int64.ofNat := by
  rw [range, repeated]
  induction count.toInt.toNat with
  | zero => rfl
  | succ number ih =>
      rw [List.replicate_succ', List.foldl_append, ih, List.range_succ, List.map_append]
      show push _ (length _) = _
      rw [length, List.length_map, List.length_range]
      rfl

end Deed.Stdlib
