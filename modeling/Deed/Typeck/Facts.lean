import Deed.Ast
import Deed.Library.Assoc
import Deed.Typeck.Range

/-!
# What is known about the integers in scope

The tables of `facts.rs`: a range for each term, for the difference of a pair
of terms and for the total of a pair, and the four rounds of `settle` that work
out what the ranges and the differences say about each other.

The tables are hash maps in the source.  They are entries in a list here, and
the one walk over all of a table, `settleOnce`, takes the order the map happens
to be walked in as a parameter: a `WalkOrder` is any rearrangement of the
entries, and nothing else about it is ever used.
-/

namespace Deed.Typeck

open Deed.Ast Deed.Library

/-- A declaration, by its number in one module's resolution table. -/
abbrev DefId := Nat

/-- A thing a fact can be about. -/
inductive Term where
  | name (def_ : DefId)
  | length (def_ : DefId)
deriving DecidableEq, Repr

namespace Term

/-- The order `Term` derives: every name before every length. -/
def before : Term → Term → Bool
  | .name left, .name right => left < right
  | .name _, .length _ => true
  | .length _, .name _ => false
  | .length left, .length right => left < right

instance : LT Term := ⟨fun left right => left.before right = true⟩

instance : DecidableLT Term := fun left right =>
  inferInstanceAs (Decidable (left.before right = true))

/-- The declaration a term is about, under either reading. -/
def def? : Term → DefId
  | .name def_ => def_
  | .length def_ => def_

end Term

/-- The order a pair of terms is kept in; which one does not matter. -/
instance : LT (Term × Term) :=
  ⟨fun left right => left.1 < right.1 ∨ (left.1 = right.1 ∧ left.2 < right.2)⟩

instance : DecidableLT (Term × Term) := fun left right =>
  inferInstanceAs (Decidable (left.1 < right.1 ∨ (left.1 = right.1 ∧ left.2 < right.2)))

/-- What is known about the thing a refinement predicate is about. -/
structure Subject where
  range : Range
  length : Range
  name : Option DefId
deriving DecidableEq, Repr

/-- A subject known only by the range it lands in. -/
def Subject.of (range : Range) : Subject where
  range := range
  length := .between 0 Int64.maxValue
  name := none

abbrev Pairs := Table (Term × Term) Range

/-- The order in which a hash map hands out its entries. -/
structure WalkOrder where
  entries : Pairs → List ((Term × Term) × Range)
  perm (table : Pairs) : (entries table).Perm table.entries

/-- The order the entries are already in. -/
def WalkOrder.asKept : WalkOrder := ⟨Table.entries, fun _ => List.Perm.refl _⟩

/-- Ranges for the terms in scope, and for their differences and totals. -/
structure Facts where
  known : Table Term Range := .empty
  differences : Pairs := .empty
  totals : Pairs := .empty
  subject : Option Subject := none
deriving DecidableEq

namespace Facts

/-- How many times `settle` goes round. -/
def rounds : Nat := 4

def new : Facts := {}

/-- What is known about a term nothing was recorded for. -/
def unrecorded : Term → Range
  | .name _ => .any
  | .length _ => .between 0 Int64.maxValue

def get (facts : Facts) (term : Term) : Range :=
  (facts.known.find? term).getD (unrecorded term)

/-- The range of `a + b`. -/
def total (facts : Facts) (a b : Term) : Range :=
  (facts.totals.find? (a, b)).getD .any

/-- Narrows what is known about `a + b`, in both orders. -/
def narrowTotal (facts : Facts) (a b : Term) (range : Range) : Facts :=
  let narrowed := (facts.total a b).meet range
  { facts with
    totals := (facts.totals.insert (a, b) narrowed).insert (b, a) narrowed }

/-- The range of `a - b`. -/
def difference (facts : Facts) (a b : Term) : Range :=
  if a = b then .exactly 0
  else (facts.differences.find? (a, b)).getD .any

/-- Narrows one term; the flag says whether anything changed. -/
def tighten (facts : Facts) (term : Term) (range : Range) : Facts × Bool :=
  let current := facts.get term
  let narrowed := current.meet range
  if narrowed = current then (facts, false)
  else ({ facts with known := facts.known.insert term narrowed }, true)

/-- Narrows one difference and its mirror image. -/
def tightenDifference (facts : Facts) (a b : Term) (range : Range) :
    Facts × Bool :=
  if a = b then (facts, false)
  else
    let current := facts.difference a b
    let narrowed := current.meet range
    let opposite := facts.difference b a
    let mirrored := opposite.meet narrowed.negate
    if narrowed = current ∧ mirrored = opposite then (facts, false)
    else
      ({ facts with
          differences := (facts.differences.insert (a, b) narrowed).insert (b, a)
            mirrored }, true)

/-- What one recorded difference says about its two names, and they about it. -/
def settlePair (state : Facts × Bool) (entry : (Term × Term) × Range) :
    Facts × Bool :=
  let ((a, b), difference) := entry
  let (facts, changed) := state
  let (facts, first) := facts.tighten a ((facts.get b).shift difference)
  let (facts, second) :=
    facts.tighten b
      ((facts.get a).shift ((Range.exactly 0).spread difference))
  let (facts, third) :=
    facts.tightenDifference a b ((facts.get a).spread (facts.get b))
  (facts, changed || first || second || third)

/-- What two recorded differences that share a name say about a third. -/
def settleChain (state : Facts × Bool)
    (entries : ((Term × Term) × Range) × ((Term × Term) × Range)) :
    Facts × Bool :=
  let (((a, b), first), ((c, d), second)) := entries
  if b = c ∧ a ≠ d then
    let (facts, changed) := state.1.tightenDifference a d (first.shift second)
    (facts, state.2 || changed)
  else state

def settleOnce (order : WalkOrder) (facts : Facts) : Facts × Bool :=
  let entries := order.entries facts.differences
  let paired := entries.foldl settlePair (facts, false)
  (entries.flatMap fun first => entries.map fun second => (first, second)).foldl
    settleChain paired

/-- Goes round until nothing changes, at most `fuel` times. -/
def settleFor (order : WalkOrder) : Nat → Facts → Facts
  | 0, facts => facts
  | fuel + 1, facts =>
      let (next, changed) := facts.settleOnce order
      if changed then settleFor order fuel next else next

def settle (order : WalkOrder) (facts : Facts) : Facts :=
  facts.settleFor order rounds

/-- Narrows what is known about `a - b`, keeping anything already known. -/
def narrowDifference (order : WalkOrder) (facts : Facts) (a b : Term)
    (range : Range) : Facts :=
  let (next, changed) := facts.tightenDifference a b range
  if changed then next.settle order else next

/-- Narrows what is known about a term, keeping anything already known. -/
def narrow (order : WalkOrder) (facts : Facts) (term : Term) (range : Range) :
    Facts :=
  let (next, changed) := facts.tighten term range
  if changed then next.settle order else next

end Facts

end Deed.Typeck
