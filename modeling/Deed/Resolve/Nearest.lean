import Deed.Library.Alignments

/-!
# The nearest name

`crates/deed-resolve/src/resolver.rs`: which name in scope a name that resolves to nothing may
have been meant for.  A panic is `none`; sizes are of 64 bits.
-/

namespace Deed.Resolve.Names

open Deed.Library (IsDistance)

abbrev Text : Type := List Char

/-- The difference of two sizes. -/
def absDiff (a b : Nat) : Nat := (a - b) + (b - a)

section Build

variable (checks : Bool)

/-- A sum of two sizes: a panic where the build checks it, else wrapped. -/
def plus (a b : Nat) : Option Nat :=
  if a + b < 2 ^ 64 then some (a + b) else if checks then none else some ((a + b) % 2 ^ 64)

/-- The three rows that are in use at a time. -/
structure Rows where
  beforePrevious : List Nat
  previous : List Nat
  current : List Nat

variable (a b : Text) (limit tooFar : Nat)

/-- One cell of the row that is being filled. -/
def fill (ca : Char) (i : Nat) (rows : Rows) (j : Nat) : Option Rows := do
  let cb ← b[j]?
  let cost := if ca ≠ cb then 1 else 0
  let left ← plus checks (← rows.current[j]?) 1
  let up ← plus checks (← rows.previous[j + 1]?) 1
  let corner ← plus checks (← rows.previous[j]?) cost
  let best := min (min (min left up) corner) tooFar
  -- The two reads before a place are inside where the place is.
  let best ← (if 0 < i ∧ 0 < j ∧ b[j - 1]? = some ca ∧ a[i - 1]? = some cb then do
    let swapped ← plus checks (← rows.beforePrevious[j - 1]?) 1
    return min (min best swapped) tooFar
    else some best)
  if j + 1 < rows.current.length then
    return { rows with current := rows.current.set (j + 1) best }
  else none

/-- The row that stands for a character, filled within the band, and the band. -/
def row (ca : Char) (i : Nat) (rows : Rows) : Option (Rows × Nat × Nat) := do
  let first := i - limit
  let last := min (← plus checks i limit) (b.length - 1)
  match rows.current with
  | [] => none
  | _ :: cells =>
      let reset := { rows with current := min (i + 1) tooFar :: cells.map fun _ => tooFar }
      let rows ← (List.range' first (last + 1 - first)).foldlM (fill checks a b tooFar ca i) reset
      return (rows, first, last)

/-- Whether no cell of the band, nor the one before it, is within the limit. -/
def lost (row : List Nat) (first last : Nat) : Option Bool :=
  if first ≤ last + 2 ∧ last + 2 ≤ row.length then
    some (((row.take (last + 2)).drop first).all (tooFar ≤ ·) && row.head?.any (tooFar ≤ ·))
  else none

/-- The rows in turn: the last one, or nothing where one is lost. -/
def sweep : List Char → Nat → Rows → Option (Option (List Nat))
  | [], _, rows => some (some rows.previous)
  | ca :: rest, i, rows => do
      let (rows, first, last) ← row checks a b limit tooFar ca i rows
      if ← lost tooFar rows.current first last then return none
      else sweep rest (i + 1) ⟨rows.previous, rows.current, rows.beforePrevious⟩

/-- The distance where it is within the limit. -/
def within (distance : Nat) : Option Nat := if distance ≤ limit then some distance else none

/-- Edit distance, or nothing when it is greater than the limit. -/
def editDistanceWithin : Option (Option Nat) :=
  if limit < absDiff a.length b.length then some none
  else if a = [] then some (within limit b.length)
  else do
    let tooFar ← plus checks limit 1
    if b = [] then return within limit a.length
    else
      let blank := List.replicate (b.length + 1) tooFar
      let start := (List.range (b.length + 1)).map (min · tooFar)
      match ← sweep checks a b limit tooFar a 0 ⟨blank, start, blank⟩ with
      | none => return none
      | some previous => return within limit (← previous[b.length]?)

end Build

/-- One edit for short names, proportionally more for long ones. -/
def threshold (name : Text) : Nat := max (name.length / 3) 1

/-- The best candidate so far and whether another is as near. -/
structure Best where
  best : Option (Nat × Text)
  ambiguous : Bool

/-- What one candidate at a distance makes of the best so far. -/
def Best.meet (state : Best) (distance : Nat) (candidate : Text) : Best :=
  match state.best with
  | none => { state with best := some (distance, candidate) }
  | some (bestDistance, _) =>
      if distance < bestDistance then ⟨some (distance, candidate), false⟩
      else if distance = bestDistance then { state with ambiguous := true }
      else state

/-- One candidate of many. -/
def look (checks : Bool) (name : Text) (state : Best) (candidate : Text) : Option Best := do
  if threshold name < absDiff candidate.length name.length then return state
  else
    match ← editDistanceWithin checks name candidate (threshold name) with
    | none => return state
    | some distance => return state.meet distance candidate

/-- The nearest candidate, when there is an unambiguous one. -/
def closest (checks : Bool) (name : Text) (candidates : List Text) : Option (Option Text) := do
  let state ← candidates.foldlM (look checks name) ⟨none, false⟩
  return state.best.bind fun best => if state.ambiguous then none else some best.2

/-! ## What the nearest name is -/

/-- A candidate is as near to a name as any and within the threshold. -/
def Nearest (name : Text) (candidates : List Text) (candidate : Text) : Prop :=
  candidate ∈ candidates ∧ ∃ distance, IsDistance name candidate distance ∧
    distance ≤ threshold name ∧
    ∀ other ∈ candidates, ∀ further, IsDistance name other further → distance ≤ further

/-- A candidate is nearer than every other. -/
def Alone (name : Text) (candidates : List Text) (candidate : Text) : Prop :=
  Nearest name candidates candidate ∧
    ∀ other, Nearest name candidates other → other = candidate

/-- The distance is answered exactly where it is within the limit. -/
def Bands (checks : Bool) (a b : Text) (limit : Nat) : Prop :=
  ∃ answer, editDistanceWithin checks a b limit = some answer ∧
    ∀ distance, answer = some distance ↔ IsDistance a b distance ∧ distance ≤ limit

/-- The candidate that is nearer than every other is answered, and nothing else. -/
def Suggests (checks : Bool) (name : Text) (candidates : List Text) : Prop :=
  ∃ answer, closest checks name candidates = some answer ∧
    ∀ candidate, answer = some candidate ↔ Alone name candidates candidate

end Deed.Resolve.Names
