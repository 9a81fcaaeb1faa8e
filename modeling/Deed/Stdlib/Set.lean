import Deed.Stdlib.HashMap

/-!
# The shipped set

The module `std/set`: a hash map whose values carry nothing.
-/

namespace Deed.Stdlib.Set

open Deed.Stdlib.HashMap (Buckets)

variable {T : Type*} [DecidableEq T] (hash : T → Int64)

/-- A set holding nothing. -/
def none (sample : T) : Buckets T Bool := HashMap.empty sample true

/-- A set holding one item. -/
def one (item : T) : Buckets T Bool := HashMap.set hash (none item) item true

/-- The same set with an item in it. -/
def including (subject : Buckets T Bool) (item : T) : Buckets T Bool :=
  HashMap.set hash subject item true

/-- Whether the set holds an item. -/
def has (subject : Buckets T Bool) (item : T) : Bool := HashMap.holds hash subject item

/-- How many items the set holds. -/
def count (subject : Buckets T Bool) : Option Int64 := HashMap.size subject

/-- Every item, in the order the map gives them. -/
def items (subject : Buckets T Bool) : List T := HashMap.keys subject

/-- The same set without an item, which is rebuilt from the others. -/
def without (subject : Buckets T Bool) (item : T) : Buckets T Bool :=
  (items subject).foldl
    (fun out held => if held = item then out else including hash out held) (none item)

/-- Everything in either set. -/
def union (left right : Buckets T Bool) : Buckets T Bool :=
  (items right).foldl (fun out held => including hash out held) left

/-- Everything in both sets. -/
def intersection (left right : Buckets T Bool) (sample : T) : Buckets T Bool :=
  (items left).foldl
    (fun out held => if has hash right held then including hash out held else out) (none sample)

/-- Everything in the first set that is not in the second. -/
def difference (left right : Buckets T Bool) (sample : T) : Buckets T Bool :=
  (items left).foldl
    (fun out held => if has hash right held then out else including hash out held) (none sample)

/-- Whether every item of the first set is in the second. -/
def within (left right : Buckets T Bool) : Bool :=
  walkWhile id (fun allIn held => allIn && has hash right held) (items left) true

end Deed.Stdlib.Set
