import Deed.Stdlib.Lists

/-!
# Slices of shipped lists

The functions of `std/list` that cut a list up by a count: `take`, `drop`, `windows` and
`chunks`, with `flatten`, which puts together what `chunks` cut.  The walks that compute with
the caller's count answer `none` where that stops the run.
-/

namespace Deed.Stdlib

variable {α : Type*}

/-- The turns of `for item at index in items`. -/
def turns (items : List α) : List (α × Int64) :=
  items.zipIdx.map fun turn => (turn.1, Int64.ofNat turn.2)

/-- The first `upto` elements, in the order they were given. -/
def take (items : List α) (upto : Int64) : List α :=
  walkWhile (fun kept => decide (length kept < upto)) (fun kept item => push kept item) items []

/-- Everything after the first `count` elements. -/
def drop (items : List α) (count : Int64) : List α :=
  (turns items).foldl
    (fun kept turn => if turn.2 < count then kept else push kept turn.1) []

/-- One level of nesting undone. -/
def flatten (items : List (List α)) : List α :=
  items.foldl (fun out group => concat out group) []

/-- Overlapping slices of `size` consecutive elements, in order. -/
def windows (items : List α) (size : Int64) : Option (List (List α)) :=
  if size ≤ 0 then some []
  else
    (turns items).foldlM
      (fun out turn => (plus turn.2 size).bind fun stop =>
        if stop ≤ length items then some (push out (take (drop items turn.2) size))
        else some out) []

/-- Non-overlapping slices of `size` consecutive elements, in order. -/
def chunks (items : List α) (size : Int64) : Option (List (List α)) :=
  if size ≤ 0 then some []
  else
    (turns items).foldlM
      (fun out turn => (remainder turn.2 size).bind fun left =>
        if left = 0 then some (push out (take (drop items turn.2) size))
        else some out) []

end Deed.Stdlib
