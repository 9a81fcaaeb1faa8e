import Deed.Stdlib.Slices

/-!
# The shipped sort

`partition`, `sort`, `largest` and `last` of `std/list`.  The order is what the caller passes,
a function that answers whether its first argument belongs before its second.
-/

namespace Deed.Stdlib

variable {α : Type*}

/-- Both sides of a filter, kept in order. -/
structure Parts (α : Type*) where
  kept : List α
  rest : List α

/-- Both sides of a filter, kept and rejected, each in input order. -/
def partition (items : List α) (keep : α → Bool) : Parts α :=
  items.foldl
    (fun parts item =>
      if keep item then { kept := push parts.kept item, rest := parts.rest }
      else { kept := parts.kept, rest := push parts.rest item })
    { kept := [], rest := [] }

/-- Insertion sort: each element finds its place among what has already been placed. -/
def sort (items : List α) (before : α → α → Bool) : List α :=
  items.foldl
    (fun sorted item =>
      let parts := partition sorted fun existing => before existing item
      concat (push parts.kept item) parts.rest) []

/-- The largest, by an order the caller passes. -/
def largest (items : List α) (before : α → α → Bool) : Except String α :=
  items.foldl
    (fun best item =>
      match best with
      | .ok found => if before found item then .ok item else .ok found
      | .error _ => .ok item)
    (.error "an empty list has no largest element")

/-- The last element, or the out-of-range error of `at` on an empty list. -/
def last (items : List α) : Option (Except String α) :=
  (minus (length items) 1).map (elementAt items)

end Deed.Stdlib
