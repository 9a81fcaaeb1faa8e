import Deed.Typeck.Reading

/-!
# What a condition tells about the names in it

`narrowed` reads a condition that is known to hold, or known to fail, back into
the facts.  Every comparison it meets is read three ways: as a value ruled out
at the edge of a name's range, as a bound on a name however many times it is
counted, and as a bound on the difference or the total of a pair.
-/

namespace Deed.Typeck

open Deed.Ast Deed.Library

/-- The comparison that holds exactly when this one fails. -/
def negated : BinaryOp → Option BinaryOp
  | .lt => some .ge
  | .le => some .gt
  | .gt => some .le
  | .ge => some .lt
  | .eq => some .ne
  | .ne => some .eq
  | _ => none

/-- The same comparison with its sides swapped. -/
def flipped : BinaryOp → Option BinaryOp
  | .lt => some .gt
  | .le => some .ge
  | .gt => some .lt
  | .ge => some .le
  | .eq => some .eq
  | .ne => some .ne
  | _ => none

/-- The range `x` is pinned to by `x + offset op 0`. -/
def boundFrom (op : BinaryOp) (offset : Range) : Option Range := do
  let (low, high) ← offset.bounds
  let least ← checked (-high.toInt)
  let most ← checked (-low.toInt)
  match op with
  | .lt =>
      match checked (most.toInt - 1) with
      | some bound => some (.between Int64.minValue bound)
      | none => some .empty
  | .le => some (.between Int64.minValue most)
  | .gt =>
      match checked (least.toInt + 1) with
      | some bound => some (.between bound Int64.maxValue)
      | none => some .empty
  | .ge => some (.between least Int64.maxValue)
  | .eq => some (.between least most)
  | _ => none

/-! ## Dividing a bound -/

/-- `checked_div`: the quotient rounded towards nought. -/
def checkedDiv (value by_ : Int64) : Option Int64 :=
  if by_ = 0 then none else checked (value.toInt.tdiv by_.toInt)

/-- The largest `d` with `d * by_ ≤ value`, or the mirror of that. -/
def roundDown (value by_ : Int64) : Option Int64 :=
  if value = Int64.minValue ∧ by_ = -1 then some Int64.maxValue
  else do
    let quotient ← checkedDiv value by_
    let exact := value.toInt.tmod by_.toInt = 0
    if exact ∨ (value < 0 ↔ by_ < 0) then some quotient
    else checked (quotient.toInt - 1)

/-- The smallest `d` with `d * by_ ≥ value`, or the mirror of that. -/
def roundUp (value by_ : Int64) : Option Int64 := do
  let quotient ← checkedDiv value by_
  let exact := value.toInt.tmod by_.toInt = 0
  if exact ∨ ¬ (value < 0 ↔ by_ < 0) then some quotient
  else checked (quotient.toInt + 1)

/-- The range of `d`, given the range of `count * d`. -/
def divided (bound : Range) (count : Int64) : Option Range :=
  if count = 0 then none
  else
    match bound.bounds with
    | none => some .empty
    | some (low, high) => do
        if count > 0 then
          let low ← roundUp low count
          let high ← roundDown high count
          some (.between low high)
        else
          let least ← roundUp high count
          let most ← roundDown low count
          some (.between least most)

/-! ## Narrowing on one comparison -/

/-- What is left of a known range without the one value `value`, when that
value sits at an end of it. -/
def withoutEnd (known : Range) (value : Int64) : Option Range :=
  match known.bounds with
  | none => none
  | some (knownLow, knownHigh) =>
      if value = knownLow then
        match checked (knownLow.toInt + 1) with
        | some bound => some (.between bound knownHigh)
        | none => some .empty
      else if value = knownHigh then
        match checked (knownHigh.toInt - 1) with
        | some bound => some (.between knownLow bound)
        | none => some .empty
      else none

section Comparison

variable (order : WalkOrder) (env : Env)

/-- Rules a single value out of what a name could be, when it sits at an edge. -/
def ruleOutAValue (op : BinaryOp) (left right : Expr) (facts : Facts) : Facts :=
  if op ≠ .ne then facts
  else
    match termOf left env with
    | none => facts
    | some term =>
        match (rangeOf facts env right).bounds with
        | none => facts
        | some (low, high) =>
            if low ≠ high then facts
            else
              match withoutEnd (facts.get term) low with
              | some narrowed => facts.narrow order term narrowed
              | none => facts

/-- Narrows a name from a comparison, however many times it appears in it. -/
def narrowScaled (op : BinaryOp) (left right : Expr) (facts : Facts) : Facts :=
  let form := differenceForm left right facts env
  match form.scaledName with
  | none => facts
  | some (term, count) =>
      match (boundFrom op form.offset).bind fun bound => divided bound count with
      | none => facts
      | some narrowed => facts.narrow order term narrowed

/-- Records what `left op right` says about a pair of names. -/
def narrowRelation (op : BinaryOp) (left right : Expr) (facts : Facts) : Facts :=
  let form := differenceForm left right facts env
  match boundFrom op form.offset with
  | none => facts
  | some bound =>
      match form.pair with
      | some (a, b) => facts.narrowDifference order a b bound
      | none =>
          match form.total with
          | some (a, b) => facts.narrowTotal a b bound
          | none => facts

/-- The sides of a flipped comparison, when it has one to flip to. -/
def ruleOutFlipped (op : BinaryOp) (left right : Expr) (facts : Facts) : Facts :=
  match flipped op with
  | some flipped => ruleOutAValue order env flipped right left facts
  | none => facts

/-- Everything one comparison that holds says. -/
def narrowComparison (op : BinaryOp) (left right : Expr) (facts : Facts) :
    Facts :=
  let facts := ruleOutAValue order env op left right facts
  let facts := ruleOutFlipped order env op left right facts
  let facts := narrowScaled order env op left right facts
  narrowRelation order env op left right facts

/-! ## Narrowing on a condition -/

/-- What a condition says when it holds, or when it fails. -/
def applyNarrowing : Expr → Facts → Bool → Facts
  | .unary .not operand _, facts, whenTrue =>
      applyNarrowing operand facts (!whenTrue)
  | .binary .and lhs rhs _, facts, true =>
      applyNarrowing rhs (applyNarrowing lhs facts true) true
  | .binary .or lhs rhs _, facts, false =>
      applyNarrowing rhs (applyNarrowing lhs facts false) false
  | .binary op lhs rhs _, facts, whenTrue =>
      match if whenTrue then some op else negated op with
      | some effective => narrowComparison order env effective lhs rhs facts
      | none => facts
  | _, facts, _ => facts

/-- What `condition` tells about the names in it, when it comes out `whenTrue`. -/
def narrowed (condition : Expr) (facts : Facts) (whenTrue : Bool) : Facts :=
  applyNarrowing order env condition facts whenTrue

end Comparison

end Deed.Typeck
