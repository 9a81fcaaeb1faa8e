import Deed.Typeck.Narrowing

/-!
# What a contract promises a caller

`promisedBy` compiles an `ensures` clause into a `Guarantee`: the range the
clause narrows the result to, and a range for `result - factor * argument` for
each argument the clause counts the result against.  The facts a body gets are
run over the clause in an environment made up for it, in which the result and
the parameters are the only names.
-/

namespace Deed.Typeck

open Deed.Ast Deed.Library

/-- Keeps the tighter of two things a promise says about one argument. -/
def recordScaled (offsets : List (Nat × Scaled)) (index : Nat)
    (scaled : Scaled) : List (Nat × Scaled) :=
  match Assoc.find? offsets index with
  | none => Assoc.insert offsets index scaled
  | some existing =>
      if existing.factor = scaled.factor then
        Assoc.insert offsets index
          { scaled with range := existing.range.meet scaled.range }
      else if existing.factor ≠ 1 ∧ scaled.factor = 1 then
        Assoc.insert offsets index scaled
      else offsets

/-- Everything both promises say, for a function with more than one clause. -/
def Guarantee.meet (guarantee other : Guarantee) : Guarantee where
  range := guarantee.range.meet other.range
  offsets :=
    other.offsets.foldl
      (fun offsets (index, scaled) => recordScaled offsets index scaled)
      guarantee.offsets

/-! ## The names of a clause -/

/-- The definition made up for the thing a clause describes. -/
def resultDef : DefId := 0

/-- The parameters a clause may relate the result to, by position, each with
the definition made up for it. -/
def clauseParams (subject : String) (names : List String) :
    List (Nat × DefId) :=
  (List.range names.length).filterMap fun index =>
    if names[index]? = some subject then none else some (index, index + 1)

/-- The environment of a clause: the result, the parameters, and nothing else. -/
def clauseEnv (subject : String) (names : List String) : Env where
  defOf
    | .ident ident =>
        if ident.name = subject then some resultDef
        else
          ((clauseParams subject names).find? fun (index, _) =>
            names[index]? = some ident.name).map Prod.snd
    | _ => none
  length := none
  call _ := .any
  refined _ := .any

/-! ## Reading a clause -/

/-- What one comparison bounds `result - factor * argument` by, when it counts
the result once and one argument. -/
def scaledBound (op : BinaryOp) (form : Linear) (subject : DefId)
    (params : List (Nat × DefId)) : Option (Nat × Scaled) :=
  if Assoc.find? form.terms (.name subject) ≠ some 1 then none
  else
    match Assoc.erase form.terms (.name subject) with
    | [(.name def_, count)] => do
        let factor ← checked (-count.toInt)
        let (index, _) ← params.find? fun (_, param) => param = def_
        let range ← boundFrom op form.offset
        some (index, ⟨factor, range⟩)
    | _ => none

/-- Reads one comparison as a bound on `result - factor * argument`. -/
def scaledFrom (op : BinaryOp) (form : Linear) (subject : DefId)
    (params : List (Nat × DefId)) (offsets : List (Nat × Scaled)) :
    List (Nat × Scaled) :=
  match scaledBound op form subject params with
  | some (index, scaled) => recordScaled offsets index scaled
  | none => offsets

section Collect

variable (facts : Facts) (env : Env) (subject : DefId)
  (params : List (Nat × DefId))

/-- Both ways round, since the result may stand on either side. -/
def scaledFromBoth (op : BinaryOp) (lhs rhs : Expr)
    (offsets : List (Nat × Scaled)) : List (Nat × Scaled) :=
  let offsets :=
    scaledFrom op (differenceForm lhs rhs facts env) subject params offsets
  match flipped op with
  | some flipped =>
      scaledFrom flipped (differenceForm rhs lhs facts env) subject params offsets
  | none => offsets

/-- What a clause says about the result next to each of the arguments. -/
def collectScaled :
    Expr → List (Nat × Scaled) → Bool → List (Nat × Scaled)
  | .unary .not operand _, offsets, whenTrue =>
      collectScaled operand offsets (!whenTrue)
  | .binary .and lhs rhs _, offsets, true =>
      collectScaled rhs (collectScaled lhs offsets true) true
  | .binary .or lhs rhs _, offsets, false =>
      collectScaled rhs (collectScaled lhs offsets false) false
  | .binary op lhs rhs _, offsets, whenTrue =>
      match if whenTrue then some op else negated op with
      | some effective =>
          scaledFromBoth facts env subject params effective lhs rhs offsets
      | none => offsets
  | _, offsets, _ => offsets

end Collect

/-- What the facts of a body would be where the clause holds. -/
def clauseFacts (order : WalkOrder) (condition : Expr) (subject : String)
    (names : List String) : Facts :=
  applyNarrowing order (clauseEnv subject names) condition Facts.new true

/-- What an `ensures` clause promises, as a range and a set of differences. -/
def promisedBy (order : WalkOrder) (condition : Expr) (subject : String)
    (names : List String) : Guarantee :=
  let facts := clauseFacts order condition subject names
  { range := facts.get (.name resultDef)
    offsets :=
      collectScaled facts (clauseEnv subject names) resultDef
        (clauseParams subject names) condition [] true }

end Deed.Typeck
